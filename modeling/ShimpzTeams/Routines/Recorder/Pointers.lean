import ShimpzTeams.Protocol.RoundTrip
import ShimpzTeams.Routines.Recorder.Provenance

/-!
# Pointers and their tokens

A pointer is compared as text, by its characters; its tokens never hold the slash that
separates them, so its text determines them and comparing texts compares tokens.
-/

namespace ShimpzTeams.Routines.Recorder

open StrictJson Protocol Library List

section

theorem slash_not_mem_escape (token) : '/' ∉ escape token := by
  intro h
  obtain ⟨character, -, h⟩ := mem_flatMap.mp h
  split at h
  · simp at h
  split at h
  · simp at h
  next hslash => exact hslash (beq_iff_eq.mpr (mem_singleton.mp h).symm)

theorem replaceEscape_cons {digit character first rest} (h : first ≠ '~') :
    replaceEscape digit character (first :: rest) = first :: replaceEscape digit character rest := by
  rw [replaceEscape]
  rintro _ _ rfl
  exact absurd rfl h

/-- Decoding the slashes of an escaped token leaves its tildes escaped, and decoding those gives the token. -/
theorem unescape_escape (token) : unescape (escape token) = token := by
  suffices h : ∀ text : List Char, replaceEscape '0' '~' (replaceEscape '1' '/' (text.flatMap fun character =>
      if character == '~' then ['~', '0'] else if character == '/' then ['~', '1'] else [character])) = text by
    rw [unescape, escape, h, String.ofList_toList]
  intro text
  induction text with
  | nil => rfl
  | cons character rest ih =>
    rw [flatMap_cons]
    by_cases htilde : character = '~'
    · subst htilde
      simpa [replaceEscape, replaceEscape_cons] using ih
    by_cases hslash : character = '/'
    · subst hslash
      simpa [replaceEscape, replaceEscape_cons] using ih
    · simpa [htilde, hslash, replaceEscape_cons] using ih

theorem map_unescape_escape (tokens : List String) : (tokens.map escape).map unescape = tokens := by
  simp [Function.comp_def, unescape_escape]

theorem toList_pointerOf (tokens) :
    (pointerOf tokens).toList = tokens.flatMap fun token => '/' :: escape token := String.toList_ofList

theorem splitOn_pointerOf (tokens) : (pointerOf tokens).toList.splitOn '/' = [] :: tokens.map escape := by
  rw [toList_pointerOf]
  induction tokens with
  | nil => rfl
  | cons token rest ih =>
    rw [flatMap_cons, cons_append, map_cons, ← nil_append ('/' :: _), splitOn_append_cons_self_of_not_mem not_mem_nil]
    cases rest with
    | nil => rw [flatMap_nil, append_nil, splitOn_eq_singleton (slash_not_mem_escape token)]; rfl
    | cons next others =>
      rw [flatMap_cons, cons_append, ← nil_append ('/' :: _), splitOn_append_cons_self_of_not_mem not_mem_nil] at ih
      rw [flatMap_cons, cons_append, splitOn_append_cons_self_of_not_mem (slash_not_mem_escape token),
        (List.cons.inj ih).2]

theorem pointerOf_injective : Function.Injective pointerOf := by
  intro first second h
  have hsplit := splitOn_pointerOf first
  rw [h, splitOn_pointerOf] at hsplit
  rw [← map_unescape_escape first, ← (List.cons.inj hsplit).2, map_unescape_escape]

theorem pointerTail_escape (token rest) : pointerTail (escape token ++ rest) = pointerTail rest := by
  unfold escape
  induction token.toList with
  | nil => rfl
  | cons character others ih =>
    rw [flatMap_cons, append_assoc]
    by_cases htilde : character = '~'
    · subst htilde
      simpa [pointerTail] using ih
    by_cases hslash : character = '/'
    · subst hslash
      simpa [pointerTail] using ih
    · simpa [pointerTail, htilde, hslash] using ih

theorem pointerRe_pointerOf (tokens) : pointerRe (pointerOf tokens) = true := by
  have htail : ∀ tokens : List String, pointerTail (tokens.flatMap fun token => '/' :: escape token) = true := by
    intro tokens
    induction tokens with
    | nil => rfl
    | cons token rest ih =>
      rw [flatMap_cons, cons_append, pointerTail, pointerTail_escape, ih]
      all_goals simp
  unfold pointerRe
  rw [toList_pointerOf]
  cases tokens with
  | nil => rfl
  | cons token rest =>
    rw [flatMap_cons, cons_append]
    exact (pointerTail_escape token _).trans (htail rest)

theorem pointerTokensOf_pointerOf {tokens} (h : (pointerOf tokens).length ≤ maxPointerChars) :
    pointerTokensOf (pointerOf tokens) = some tokens := by
  unfold pointerTokensOf
  rw [pointerRe_pointerOf, if_neg (by simpa using h)]
  cases tokens with
  | nil => rfl
  | cons token rest =>
    have hsplit := splitOn_pointerOf (token :: rest)
    rw [toList_pointerOf, flatMap_cons, cons_append, ← nil_append ('/' :: _),
      splitOn_append_cons_self_of_not_mem not_mem_nil] at hsplit
    rw [if_neg, toList_pointerOf, flatMap_cons, cons_append, drop_one, tail_cons,
      (List.cons.inj hsplit).2, map_unescape_escape]
    simp [← String.toList_eq_nil_iff, toList_pointerOf]

theorem followAll_of_reached {tokens value node} (h : reached value tokens = some node) :
    followAll value tokens = some node := by
  induction tokens generalizing value with
  | nil => exact h
  | cons token rest ih =>
    obtain ⟨next, hnext, h⟩ := Option.bind_eq_some_iff.mp h
    refine Option.bind_eq_some_iff.mpr ⟨next, ?_, ih h⟩
    cases value with
    | object | array | null | bool | number | string => first | exact hnext | cases hnext

end

section

variable {tokens position : List String}

/-- A pointer and a slash start another pointer exactly when its tokens are a proper beginning of the other's. -/
theorem afterText_pointerOf : (afterText (pointerOf position ++ "/") (pointerOf tokens).toList).isSome = true ↔
      position <+: tokens ∧ position ≠ tokens := by
  rw [isSome_afterText, String.toList_append]
  constructor
  · rintro ⟨rest, hrest⟩
    have hsplit := splitOn_pointerOf tokens
    rw [← hrest, append_assoc] at hsplit
    change ((pointerOf position).toList ++ '/' :: rest).splitOn '/' = _ at hsplit
    rw [splitOn_append_cons_self, splitOn_pointerOf, cons_append] at hsplit
    have htokens := congrArg (List.map unescape) (List.cons.inj hsplit).2
    rw [map_append, map_unescape_escape, map_unescape_escape] at htokens
    refine ⟨⟨_, htokens⟩, fun heq => ?_⟩
    rw [heq, append_right_eq_self, map_eq_nil_iff] at htokens
    exact splitOn_ne_nil _ _ htokens
  · rintro ⟨⟨rest, rfl⟩, hne⟩
    cases rest with
    | nil => simp at hne
    | cons token rest =>
      rw [toList_pointerOf, toList_pointerOf, flatMap_append, flatMap_cons, cons_append]
      exact ⟨_, append_assoc _ _ _⟩

theorem prefix_iff_afterText : position <+: tokens ↔ position = tokens ∨
      (afterText (pointerOf position ++ "/") (pointerOf tokens).toList).isSome = true := by
  rw [afterText_pointerOf]
  by_cases h : position = tokens
  · simp [h]
  · simp [h]

theorem available_iff {kept : Kept} (hwritten : ∀ item ∈ kept.withheld, ∃ position, pointerOf position = item) :
    kept.available (pointerOf tokens) = true ↔
      ∀ position, pointerOf position ∈ kept.withheld → ¬position <+: tokens ∧ ¬tokens <+: position := by
  have hmeets (position : List String) :
      ((pointerOf position).isEmpty || pointerOf position == pointerOf tokens ||
        (afterText (pointerOf position ++ "/") (pointerOf tokens).toList).isSome ||
        (afterText (pointerOf tokens ++ "/") (pointerOf position).toList).isSome) = true ↔
      position <+: tokens ∨ tokens <+: position := by
    have hempty : (pointerOf position).isEmpty = true → position = [] := by
      rw [String.isEmpty_iff]
      exact fun h => pointerOf_injective h
    rw [prefix_iff_afterText, prefix_iff_afterText]
    simp only [Bool.or_eq_true, beq_iff_eq, pointerOf_injective.eq_iff]
    constructor
    · rintro (((h | h) | h) | h)
      · rw [hempty h, ← prefix_iff_afterText]
        exact .inl nil_prefix
      · exact .inl (.inl h)
      · exact .inl (.inr h)
      · exact .inr (.inr h)
    · rintro ((h | h) | (h | h))
      · exact .inl (.inl (.inr h))
      · exact .inl (.inr h)
      · exact .inl (.inl (.inr h.symm))
      · exact .inr h
  simp only [Kept.available, Bool.not_eq_true', any_eq_false]
  constructor
  · intro h position hposition
    exact not_or.mp (mt (hmeets position).mpr (h _ hposition))
  · intro h item hitem
    obtain ⟨position, rfl⟩ := hwritten item hitem
    exact mt (hmeets position).mp (not_or.mpr (h position hitem))

theorem memberPointer_pointerOf (position key) :
    memberPointer (pointerOf position) key = pointerOf (position ++ [key]) := by
  apply String.toList_injective
  simp [memberPointer, toList_pointerOf, String.toList_append]

theorem itemPointer_pointerOf (position index) :
    itemPointer (pointerOf position) index = pointerOf (position ++ [toString index]) := by
  have hdigits : escape (toString index) = (toString index).toList := by
    rw [escape, toList_natText, ← flatMap_singleton' (Nat.toDigits 10 index), flatMap_assoc]
    refine flatMap_congr fun character hcharacter => ?_
    have hdigit := (whole_toDigits index).digits character hcharacter
    rw [flatMap_singleton, if_neg, if_neg]
    all_goals
      simp only [beq_iff_eq]
      rintro rfl
      revert hdigit
      decide
  rw [← memberPointer_pointerOf, memberPointer, hdigits, String.ofList_toList]
  rfl

variable [Platform] [SchemaEngine]

/-- Every withheld pointer is written from the tokens of its place. -/
theorem keptAt_written {root value protectedValues levels sub name kept}
    (h : keptAt root protectedValues levels value sub name (pointerOf position) = .ok kept) :
    ∀ item ∈ kept.2, ∃ position, pointerOf position = item := by
  have hself {position : List String} : ∀ item ∈ [pointerOf position], ∃ position, pointerOf position = item :=
    fun item hitem => ⟨position, (mem_singleton.mp hitem).symm⟩
  induction levels generalizing value sub name position kept with
  | zero =>
    cases h
    exact hself
  | succ levels ih =>
    have hflat {results : List (List String)}
        (hresults : ∀ result ∈ results, ∀ item ∈ result, ∃ position, pointerOf position = item) :
        ∀ item ∈ results.flatten, ∃ position, pointerOf position = item := by
      intro item hitem
      obtain ⟨result, hresult, hitem⟩ := mem_flatten.mp hitem
      exact hresults result hresult item hitem
    cases value with
    | object members =>
      rw [keptAt] at h
      split at h
      · cases h
        exact hself
      obtain ⟨inside, hmembers, h⟩ := bind_eq_ok.mp h
      cases h
      refine hflat (forall_mem_map.mpr fun result hmem => ?_)
      obtain ⟨member, -, hresult⟩ := exists_left_of_mem (mapM_eq_ok.mp hmembers) hmem
      obtain ⟨schemas, -, hresult⟩ := bind_eq_ok.mp hresult
      obtain ⟨inner, hinner, hresult⟩ := bind_eq_ok.mp hresult
      cases hresult
      rw [memberPointer_pointerOf] at hinner
      exact ih hinner
    | array items =>
      rw [keptAt] at h
      split at h
      · cases h
        exact hself
      obtain ⟨inside, hitems, h⟩ := bind_eq_ok.mp h
      cases h
      refine hflat (forall_mem_map.mpr fun result hmem => ?_)
      obtain ⟨item, -, hresult⟩ := exists_left_of_mem (mapM_eq_ok.mp hitems) hmem
      rw [itemPointer_pointerOf] at hresult
      exact ih hresult
    | null | bool | number | string =>
      simp only [keptAt] at h
      split at h
      · cases h
        exact hself
      · cases h
        exact fun _ hitem => nomatch hitem

end

/-- The pointer of some tokens within the bound is split into them and selects what they lead to, as the walk by member
names does; every kept value withholds written pointers only, and offers a pointer exactly when no withheld
position's tokens begin its tokens, are its tokens, or begin with them. -/
theorem pointers_compared_by_token [Platform] [SchemaEngine] :
    (∀ tokens : List String, (pointerOf tokens).length ≤ maxPointerChars →
      pointerTokensOf (pointerOf tokens) = some tokens ∧
      ∀ value, select value (text (pointerOf tokens)) =
          (followAll value tokens).elim (.error .referenceMissing) .ok ∧
        ∀ node, reached value tokens = some node → followAll value tokens = some node) ∧
    (∀ value schema protectedValues kept, keep value schema protectedValues = .ok kept →
      ∀ item ∈ kept.withheld, ∃ position, pointerOf position = item) ∧
    (∀ kept : Kept, (∀ item ∈ kept.withheld, ∃ position, pointerOf position = item) →
      ∀ tokens, kept.available (pointerOf tokens) = true ↔
        ∀ position, pointerOf position ∈ kept.withheld → ¬position <+: tokens ∧ ¬tokens <+: position) := by
  refine ⟨fun tokens hbound => ?_, ?_, fun kept hwritten tokens => available_iff hwritten⟩
  · have htokens := pointerTokensOf_pointerOf hbound
    refine ⟨htokens, fun value => ⟨?_, fun node => followAll_of_reached⟩⟩
    have hread : (string (text (pointerOf tokens))).bind pointerTokensOf = some tokens := htokens
    rw [select, hread]
    dsimp only
    cases followAll value tokens <;> rfl
  · intro value schema protectedValues kept h
    obtain ⟨inside, hinside, h⟩ := bind_eq_ok.mp h
    split at h
    · cases h
      exact fun item hitem => ⟨[], (mem_singleton.mp hitem).symm⟩
    · cases h
      intro item hitem
      change keptAt _ _ _ _ _ _ (pointerOf []) = .ok inside at hinside
      exact keptAt_written hinside item ((OrderedMap.mem_setOf Function.injective_id).mp hitem)

end ShimpzTeams.Routines.Recorder
