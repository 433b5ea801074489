import ShimpzTeams.Protocol.Notice
import ShimpzTeams.Protocol.RoundTrip

/-!
# Selector constants and their texts

A selector shows its constant as JSON text in which nothing is invisible. The writer and
the reader have escape tables of their own; the rule admits a text when it is written back.
-/

namespace ShimpzTeams.Protocol

open StrictJson List

/-- A selector constant: a string by its code points, which may hold lone surrogates, or an integer. -/
inductive Constant where
  | string (points : List Nat)
  | integer (value : Int)

def Constant.text : Constant → String
  | .string points => whereString points
  | .integer value => toString value

/-- The constants among the values: every string, and every integer, a long one as its decimal text. -/
inductive Constant.Of : Value → Constant → Prop where
  | string (text : String) : Of (.string text) (.string (text.toList.map Char.toNat))
  | int (value : Int) : Of (.number (.int value)) (.integer value)
  | bigInt (value : Int) : Of (.number (.bigInt (toString value))) (.integer value)

def readConstant (text : String) : Option Constant :=
  (jsonScalar text).map fun
    | .string points => .string points
    | .integer => .integer (Parser.decimal text.toList)

def whereChar (character : Char) : List Char :=
  if character.toNat ≤ 0x1F || character == '"' || character == '\\' then writeChar false character
  else pushEscaped character.toNat (some character)

theorem whereString_toNat (text : List Char) :
    (whereString (text.map Char.toNat)).toList = '"' :: (text.flatMap whereChar ++ ['"']) := by
  have hchar (character : Char) : charOf character.toNat = some character := by
    have hvalid : character.toNat.isValidChar := character.valid
    rw [charOf, dif_pos hvalid]
    rfl
  simp only [whereString, String.toList_ofList, flatMap_map, hchar]
  rfl

/-- How a selector writes a character: as itself when that shows, by a one-letter escape, or by the escape of its
one UTF-16 unit. -/
inductive ShownChar (character : Char) : List Char → Prop where
  | plain (hquote : character ≠ '"') (hbackslash : character ≠ '\\')
      (hsafe : planUnsafe character.toNat = false) : ShownChar character [character]
  | simple {mark} (hmark : mark ≠ 'u') (hsafe : planUnsafe mark.toNat = false)
      (hsimple : simpleEscape mark = some character.toNat) : ShownChar character ['\\', mark]
  | unit (hunit : character.toNat < 0x10000) : ShownChar character (pushEscape character.toNat)

theorem shownChar (character) : ShownChar character (whereChar character) := by
  have hnat {other : Char} (h : character = other) : some other.toNat = some character.toNat := by rw [h]
  unfold whereChar
  split
  · next hspecial =>
    simp only [Bool.or_eq_true, decide_eq_true_eq, beq_iff_eq] at hspecial
    unfold writeChar
    split
    · next h => exact .simple (by decide) (by decide) (hnat h)
    split
    · next h => exact .simple (by decide) (by decide) (hnat h)
    split
    · next h => exact .simple (by decide) (by decide) (hnat h)
    split
    · next h => exact .simple (by decide) (by decide) (hnat h)
    split
    · next h => exact .simple (by decide) (by decide) (hnat h)
    split
    · next h => exact .simple (by decide) (by decide) (by rw [h]; rfl)
    split
    · next h => exact .simple (by decide) (by decide) (by rw [h]; rfl)
    have hcontrol : character.toNat ≤ 0x1F := by simp_all
    rw [if_pos (by omega)]
    exact .unit (by omega)
  · next hspecial =>
    simp only [Bool.or_eq_true, decide_eq_true_eq, beq_iff_eq, not_or] at hspecial
    unfold pushEscaped
    dsimp only
    split
    · next hunsafe =>
      refine .unit ?_
      simp only [planUnsafe, Bool.or_eq_true, Bool.and_eq_true, decide_eq_true_eq, beq_iff_eq] at hunsafe
      omega
    · next hsafe => exact .plain hspecial.1.2 hspecial.2 (Bool.eq_false_iff.mpr hsafe)

theorem hexDigit_safe : ∀ nibble < 16, planUnsafe (hexDigit nibble).toNat = false := by decide

theorem hexValue_of_hexDigit : ∀ nibble < 16, hexValue (hexDigit nibble) = some nibble := by decide

theorem hex4_of_pushEscape {unit} (h : unit < 0x10000) (rest) :
    hex4 ((pushEscape unit).drop 2 ++ rest) = some (unit, rest) := by
  have hdigit (value : Nat) : hexValue (hexDigit (value % 16)) = some (value % 16) :=
    hexValue_of_hexDigit _ (Nat.mod_lt value (by decide))
  simp only [pushEscape, drop_succ_cons, drop_zero, cons_append, nil_append, hex4, hdigit]
  refine congrArg some (Prod.ext ?_ rfl)
  change ((unit / 4096 % 16 * 16 + unit / 256 % 16) * 16 + unit / 16 % 16) * 16 + unit % 16 = unit
  omega

theorem ShownChar.safe {character text} (h : ShownChar character text) :
    ∀ shown ∈ text, planUnsafe shown.toNat = false := by
  cases h with
  | plain hquote hbackslash hsafe => simpa using hsafe
  | simple hmark hsafe hsimple => simpa [hsafe] using (by decide : planUnsafe '\\'.toNat = false)
  | unit hunit =>
    have hdigit (value : Nat) : planUnsafe (hexDigit (value % 16)).toNat = false :=
      hexDigit_safe _ (Nat.mod_lt value (by decide))
    simp only [pushEscape, forall_mem_cons, hdigit, not_mem_nil, false_implies, implies_true, and_true]
    decide

theorem ShownChar.length_pos {character text} (h : ShownChar character text) : 1 ≤ text.length := by
  cases h <;> simp [pushEscape]

/-- A character is no surrogate, so its escape never starts a pair. -/
theorem surrogatePair_eq (character : Char) (rest) : surrogatePair character.toNat rest = some false := by
  unfold surrogatePair
  split
  · have hvalid : character.toNat.isValidChar := character.valid
    unfold Nat.isValidChar at hvalid
    rw [if_neg]
    simp only [Bool.and_eq_true, decide_eq_true_eq]
    omega
  · rfl

theorem ShownChar.reads {character text} (h : ShownChar character text) (fuel rest) :
    scalarPoints (fuel + 1) (text ++ rest) = (scalarPoints fuel rest).map (character.toNat :: ·) := by
  cases h with
  | plain hquote hbackslash hsafe => simp [scalarPoints, hquote, hbackslash]
  | simple hmark hsafe hsimple => simp [scalarPoints, jsonEscape, hmark, hsimple]
  | unit hunit =>
    have hread := hex4_of_pushEscape hunit rest
    have hescape : jsonEscape ((pushEscape character.toNat).drop 1 ++ rest) = some (character.toNat, rest) := by
      change (hex4 ((pushEscape character.toNat).drop 2 ++ rest)).bind _ = _
      rw [hread, Option.bind_some]
      dsimp only
      rw [surrogatePair_eq]
    change (jsonEscape ((pushEscape character.toNat).drop 1 ++ rest)).bind _ = _
    rw [hescape, Option.bind_some]

theorem scalarPoints_write (text : List Char) {fuel} (h : text.length < fuel) :
    scalarPoints fuel (text.flatMap whereChar ++ ['"']) = some (text.map Char.toNat) := by
  induction text generalizing fuel with
  | nil =>
    obtain ⟨fuel, rfl⟩ := Nat.exists_eq_succ_of_ne_zero (Nat.ne_of_gt h)
    simp [scalarPoints]
  | cons character text ih =>
    obtain ⟨fuel, rfl⟩ := Nat.exists_eq_succ_of_ne_zero (Nat.ne_of_gt (Nat.zero_lt_of_lt h))
    rw [flatMap_cons, append_assoc, (shownChar character).reads, ih (Nat.lt_of_succ_lt_succ h)]
    rfl

theorem jsonScalar_whereString (text : List Char) :
    jsonScalar (whereString (text.map Char.toNat)) = some (.string (text.map Char.toNat)) := by
  have hlength : text.length ≤ (text.flatMap whereChar).length := by
    induction text with
    | nil => exact Nat.zero_le _
    | cons character text ih =>
      have hone : 1 ≤ (whereChar character).length := (shownChar character).length_pos
      rw [flatMap_cons, length_append, length_cons]
      omega
  unfold jsonScalar
  rw [whereString_toNat]
  have hdigits : (unsigned ('"' :: (text.flatMap whereChar ++ ['"']))).all isDigitAscii = false := rfl
  simp only [hdigits, Bool.and_false, Bool.false_eq_true, if_false]
  rw [scalarPoints_write text (by rw [length_append]; omega)]
  rfl

theorem toDigits_digit {digit} (h : isDigitAscii digit = true) :
    digit.toNat - '0'.toNat < 10 ∧ Nat.toDigits 10 (digit.toNat - '0'.toNat) = [digit] := by
  have hdigits : ∀ number < 10, Nat.digitChar number = Char.ofNat ('0'.toNat + number) := by decide
  simp only [isDigitAscii, Bool.and_eq_true, decide_eq_true_eq] at h
  have hleft : '0'.toNat ≤ digit.toNat := h.1
  have hright : digit.toNat ≤ '0'.toNat + 9 := h.2
  refine ⟨by omega, ?_⟩
  rw [Nat.toDigits_of_lt_base (by omega), hdigits _ (by omega), Nat.add_sub_cancel' hleft, Char.ofNat_toNat]

/-- The digits of an integer without a needless zero are those of its value. -/
theorem toDigits_ofDigitChars {digits} (hne : digits ≠ [])
    (hdigits : ∀ digit ∈ digits, isDigitAscii digit = true) (hleading : digits = ['0'] ∨ digits.head? ≠ some '0') :
    Nat.toDigits 10 (Nat.ofDigitChars 10 digits 0) = digits := by
  -- By induction on the digits before the last, which are no single zero.
  induction digits using List.reverseRecOn with
  | nil => exact absurd rfl hne
  | append_singleton front last ih =>
    obtain ⟨hlast, hsingle⟩ := toDigits_digit (hdigits last (mem_append_right _ mem_cons_self))
    rw [Nat.ofDigitChars_append, Nat.ofDigitChars_cons, Nat.ofDigitChars_nil]
    cases front with
    | nil => simpa using hsingle
    | cons first others =>
      have hfirst : (first :: others).head? ≠ some '0' := by
        rcases hleading with h | h
        · simp at h
        · exact h
      have hfront := ih (cons_ne_nil _ _) (fun digit hdigit => hdigits digit (mem_append_left _ hdigit))
        (.inr hfirst)
      have hpos : 0 < Nat.ofDigitChars 10 (first :: others) 0 := by
        rw [Nat.pos_iff_ne_zero]
        intro hzero
        rw [hzero, Nat.toDigits_zero] at hfront
        rw [← hfront] at hfirst
        exact hfirst rfl
      rw [← Nat.toDigits_append_toDigits (by decide) hpos hlast, hfront, hsingle]

theorem unsigned_eq (text) : unsigned text = Parser.unsigned text := by
  cases text with
  | nil => rfl
  | cons first rest => by_cases h : first = '-' <;> simp [unsigned, Parser.unsigned, h]

theorem jsonScalar_intText (value : Int) : jsonScalar (toString value) = some .integer := by
  have hwhole := whole_toDigits value.natAbs
  have hdigits : (Nat.toDigits 10 value.natAbs).all isDigitAscii = true := all_eq_true.mpr hwhole.digits
  have hleading : (Nat.toDigits 10 value.natAbs == ['0'] || (Nat.toDigits 10 value.natAbs).head? != some '0') =
      true := by
    rw [Bool.or_eq_true, beq_iff_eq, bne_iff_ne]
    exact or_iff_not_imp_right.mpr fun h => hwhole.leading (not_not.mp h)
  unfold jsonScalar
  dsimp only
  rw [unsigned_eq, (decimal_intText value).1, hdigits, hleading]
  simp [hwhole.nonempty]

theorem intText_safe (value : Int) : ∀ character ∈ (toString value).toList, planUnsafe character.toNat = false := by
  rw [toList_intText]
  intro character hcharacter
  rcases mem_append.mp hcharacter with hsign | hdigit
  · rw [(mem_ite_nil_right.mp hsign).2 |> mem_singleton.mp]
    decide
  · have hdigit := (whole_toDigits value.natAbs).digits character hdigit
    simp only [Parser.isDigit, Bool.and_eq_true, decide_eq_true_eq] at hdigit
    have hleft : '0'.toNat ≤ character.toNat := hdigit.1
    have hright : character.toNat ≤ '9'.toNat := hdigit.2
    simp only [planUnsafe, Bool.or_eq_false_iff, Bool.and_eq_false_iff, decide_eq_false_iff_not, beq_eq_false_iff_ne]
    have hzero : '0'.toNat = 48 := rfl
    have hnine : '9'.toNat = 57 := rfl
    omega

/-- An integer written exactly so, and not as a negative zero, is the text of its value. -/
theorem intText_decimal {text} (h : jsonScalar text = some .integer) (hzero : text ≠ "-0") :
    toString (Parser.decimal text.toList) = text := by
  have hdigits : unsigned text.toList ≠ [] ∧ (∀ digit ∈ unsigned text.toList, isDigitAscii digit = true) ∧
      (unsigned text.toList = ['0'] ∨ (unsigned text.toList).head? ≠ some '0') := by
    unfold jsonScalar at h
    dsimp only at h
    split at h
    · next hall =>
      split at h
      · next hleading => simpa [and_assoc] using And.intro hall hleading
      · cases h
    · split at h
      · obtain ⟨_, -, h⟩ := Option.map_eq_some_iff.mp h
        cases h
      · cases h
  rw [unsigned_eq] at hdigits
  have hback := toDigits_ofDigitChars hdigits.1 hdigits.2.1 hdigits.2.2
  apply String.toList_injective
  rw [toList_intText]
  cases hchars : text.toList with
  | nil => simp [hchars, Parser.unsigned] at hdigits
  | cons first rest =>
    rw [hchars] at hback
    by_cases hsign : first = '-'
    · subst hsign
      have hback : Nat.toDigits 10 (Nat.ofDigitChars 10 rest 0) = rest := hback
      have hpos : Nat.ofDigitChars 10 rest 0 ≠ 0 := by
        intro hvalue
        rw [hvalue, Nat.toDigits_zero] at hback
        rw [← hback] at hchars
        exact hzero (String.toList_injective hchars)
      have hvalue : Parser.decimal ('-' :: rest) = -(Nat.ofDigitChars 10 rest 0 : Int) := rfl
      rw [hvalue, if_pos (by omega), Int.natAbs_neg, Int.natAbs_natCast, hback]
      rfl
    · have hunsigned : Parser.unsigned (first :: rest) = first :: rest := by simp [Parser.unsigned, hsign]
      have hvalue : Parser.decimal (first :: rest) = (Nat.ofDigitChars 10 (first :: rest) 0 : Int) := by
        rw [Parser.decimal, if_neg (by simp [hsign]), hunsigned]
      rw [hunsigned] at hback
      rw [hvalue, if_neg (by omega), Int.natAbs_natCast, hback]
      rfl

theorem text_of_selector {value} (h : selector value = true) :
    ∃ text constant, string (fieldOf value "value_json") = some text ∧ readConstant text = some constant ∧
      constant.text = text := by
  obtain ⟨members, hmembers, h⟩ := (Option.any_eq_true ..).mp h
  have hfield : fieldOf value "value_json" = field members "value_json" := by
    cases value with
    | object found => cases (Option.filter_eq_some_iff.mp hmembers).1; rfl
    | null | bool | number | string | array => cases hmembers
  rw [Bool.and_eq_true, Bool.and_eq_true] at h
  obtain ⟨⟨-, hplain⟩, hread⟩ := h
  rw [← hfield] at hplain hread
  obtain ⟨text, htext, -⟩ := (Option.any_eq_true ..).mp hplain
  rw [htext, Option.getD_some] at hread
  dsimp only at hread
  split at hread
  · next points hscalar => exact ⟨text, .string points, htext, by simp [readConstant, hscalar], beq_iff_eq.mp hread⟩
  · next hscalar =>
    exact ⟨text, .integer _, htext, by simp [readConstant, hscalar], intText_decimal hscalar (bne_iff_ne.mp hread)⟩
  · cases hread

/-- A constant's text is a selector's value where it is short enough. -/
theorem selector_constant [Platform] {constant}
    (hsafe : ∀ character ∈ constant.text.toList, planUnsafe character.toNat = false)
    (hread : readConstant constant.text = some constant) (member) (hmember : plain member maxMemberChars = true)
    (hlength : constant.text.length ≤ maxWhereChars) :
    selector (objectOf [("member", member), ("value_json", text constant.text)]) = true := by
  have hplain : plain (text constant.text) maxWhereChars = true := by
    have hsome : constant.text ≠ "" := by
      intro hempty
      rw [hempty] at hread
      cases hread
    have hpos : 1 ≤ constant.text.length := by
      rw [Nat.one_le_iff_ne_zero, Ne, String.length_eq_zero_iff]
      exact hsome
    simp only [plain, string, text, Option.any_some, Bool.and_eq_true, decide_eq_true_eq, Bool.not_eq_true',
      any_eq_false, Bool.not_eq_true]
    exact ⟨⟨hpos, hlength⟩, hsafe⟩
  have hobject : exactObject (objectOf [("member", member), ("value_json", text constant.text)])
      ["member", "value_json"] = some [("member", member), ("value_json", text constant.text)] := rfl
  have hmemberIs : field [("member", member), ("value_json", text constant.text)] "member" = member := rfl
  have hvalueIs : field [("member", member), ("value_json", text constant.text)] "value_json" = text constant.text := rfl
  have htext : (string (text constant.text)).getD "" = constant.text := rfl
  obtain ⟨scalar, hscalar, hconstant⟩ := Option.map_eq_some_iff.mp hread
  rw [selector, hobject, Option.any_some, hmemberIs, hvalueIs, htext, hmember, hplain, Bool.true_and, Bool.true_and]
  dsimp only
  rw [hscalar]
  cases scalar with
  | string points =>
    dsimp only at hconstant ⊢
    rw [← hconstant]
    exact beq_self_eq_true _
  | integer =>
    refine bne_iff_ne.mpr fun hzero => ?_
    rw [hzero] at hconstant
    rw [← hconstant] at hzero
    revert hzero
    decide

/-- A constant's text shows every character and reads back as the constant, and the rule admits it within its bound; a
text the rule admits is the one written for the constant it reads, so that two admitted texts of one constant are
equal. -/
theorem selector_texts_canonical [Platform] :
    (∀ value constant, Constant.Of value constant →
      whereText value = some constant.text ∧
      (∀ character ∈ constant.text.toList, planUnsafe character.toNat = false) ∧
      readConstant constant.text = some constant ∧
      ∀ member, plain member maxMemberChars = true → constant.text.length ≤ maxWhereChars →
        selector (objectOf [("member", member), ("value_json", text constant.text)]) = true) ∧
    (∀ value, selector value = true → ∃ text constant, string (fieldOf value "value_json") = some text ∧
      readConstant text = some constant ∧ constant.text = text) ∧
    (∀ first second, selector first = true → selector second = true →
      (string (fieldOf first "value_json")).bind readConstant = (string (fieldOf second "value_json")).bind readConstant →
      string (fieldOf first "value_json") = string (fieldOf second "value_json")) := by
  have hinteger (number : Int) : readConstant (toString number) = some (.integer number) := by
    rw [readConstant, jsonScalar_intText, Option.map_some, (decimal_intText number).2]
  refine ⟨?_, fun value => text_of_selector, ?_⟩
  · rintro _ _ (written | number | number)
    · have hsafe : ∀ character ∈ (whereString (written.toList.map Char.toNat)).toList,
          planUnsafe character.toNat = false := by
        rw [whereString_toNat]
        refine forall_mem_cons.mpr ⟨by decide, forall_mem_append.mpr ⟨?_, forall_mem_singleton.mpr (by decide)⟩⟩
        intro character hcharacter
        obtain ⟨given, -, hcharacter⟩ := mem_flatMap.mp hcharacter
        exact (shownChar given).safe character hcharacter
      have hread : readConstant (whereString (written.toList.map Char.toNat)) =
          some (.string (written.toList.map Char.toNat)) := by
        rw [readConstant, jsonScalar_whereString]
        rfl
      exact ⟨rfl, hsafe, hread, selector_constant hsafe hread⟩
    · exact ⟨congrArg some String.ofList_toList, intText_safe number, hinteger number,
        selector_constant (intText_safe number) (hinteger number)⟩
    · exact ⟨congrArg some String.ofList_toList, intText_safe number, hinteger number,
        selector_constant (intText_safe number) (hinteger number)⟩
  · intro first second hfirst hsecond h
    obtain ⟨shown, constant, htext, hread, hwritten⟩ := text_of_selector hfirst
    obtain ⟨other, given, hother, hgiven, hback⟩ := text_of_selector hsecond
    rw [htext, hother, Option.bind_some, Option.bind_some, hread, hgiven] at h
    rw [htext, hother, ← hwritten, ← hback, Option.some.inj h]

end ShimpzTeams.Protocol
