import ShimpzTeams.Protocol.Json
import ShimpzTeams.Library.Refusal

/-!
# The strict reader reads the canonical form back

What the writer writes for a decoded value, the strict reader decodes to the
same value with its members in name order, and that value has the same canonical
text. The proof follows the writer: each part's text is read by the reader's part of
that name, whatever comes after it.
-/

namespace ShimpzTeams.Protocol

open StrictJson Parser Library List

section

variable {α : Type}

def Reads (read : Reader α) (text : List Char) (result : α) (follows : List Char → Prop) : Prop :=
  ∀ rest pos, follows rest → ∃ after, read ⟨text ++ rest, pos⟩ = .ok (result, ⟨rest, after⟩)

theorem hexValue_hexDigit : ∀ nibble < 16, Parser.hexValue (hexDigit nibble) = some nibble := by decide

theorem hex4_pushEscape {unit} (h : unit < 65536) (offset pos rest) :
    Parser.hex4 offset ⟨(pushEscape unit).drop 2 ++ rest, pos⟩ = .ok (unit, ⟨rest, pos + 4⟩) := by
  have hunit : ((unit / 4096 % 16 * 16 + unit / 256 % 16) * 16 + unit / 16 % 16) * 16 + unit % 16 =
      unit := by
    omega
  have hdigit : ∀ value, Parser.hexValue (hexDigit (value % 16)) = some (value % 16) :=
    fun value => hexValue_hexDigit (value % 16) (Nat.mod_lt value (by decide))
  simp only [pushEscape, drop_succ_cons, drop_zero, cons_append, nil_append, Parser.hex4, hdigit, hunit]

variable {character : Char}

/-- A unit outside the surrogates is the character of that code point. -/
theorem unicode_of_unit {offset parser after}
    (h : character.toNat < 0x10000) (hread : Parser.hex4 offset parser = .ok (character.toNat, after)) :
    unicode offset parser = .ok (character, after) := by
  have hvalid : character.toNat < 0xD800 ∨ 0xDFFF < character.toNat ∧ character.toNat < 0x110000 := character.valid
  have hsurrogate : isHighSurrogate character.toNat = false := by
    simp only [isHighSurrogate, Bool.and_eq_false_iff, decide_eq_false_iff_not]
    omega
  have hcharacter : fromU32 character.toNat offset = .ok character := by
    rw [fromU32, if_pos hvalid, Char.ofNat_toNat]
  simp [unicode, hread, hsurrogate, hcharacter, ok_bind]

/-- The units of a code point past the first plane are a surrogate pair that stands for it. -/
theorem surrogates {code} (h : 0x10000 ≤ code) (hcode : code < 0x110000) :
    isHighSurrogate (0xD800 + (code - 0x10000) / 1024) = true ∧
      isLowSurrogate (0xDC00 + (code - 0x10000) % 1024) = true ∧
      pairCode (0xD800 + (code - 0x10000) / 1024) (0xDC00 + (code - 0x10000) % 1024) = code := by
  simp only [isHighSurrogate, isLowSurrogate, Bool.and_eq_true, decide_eq_true_eq]
  unfold pairCode
  omega

theorem unicode_of_pair {high low} (hhigh : isHighSurrogate high = true) (hlow : isLowSurrogate low = true)
    (hcode : pairCode high low = character.toNat) (offset pos rest) :
    unicode offset ⟨(pushEscape high).drop 2 ++ (pushEscape low ++ rest), pos⟩ =
      .ok (character, ⟨rest, pos + 4 + 2 + 4⟩) := by
  have hunits : high < 65536 ∧ low < 65536 := by
    simp only [isHighSurrogate, isLowSurrogate, Bool.and_eq_true, decide_eq_true_eq] at hhigh hlow
    omega
  have hfirst := hex4_pushEscape hunits.1 offset pos (pushEscape low ++ rest)
  have hsecond := hex4_pushEscape hunits.2 (pos + 4) (pos + 4 + 2) rest
  have hpair : lowSurrogate offset ⟨pushEscape low ++ rest, pos + 4⟩ =
      .ok (low, ⟨rest, pos + 4 + 2 + 4⟩) := by
    have hmark : lowSurrogate offset ⟨pushEscape low ++ rest, pos + 4⟩ =
        Parser.hex4 (pos + 4) ⟨(pushEscape low).drop 2 ++ rest, pos + 4 + 2⟩ >>= fun read =>
          if isLowSurrogate read.1 then .ok (read.1, read.2) else .error (.loneSurrogate offset) := rfl
    rw [hmark, hsecond, ok_bind, if_pos hlow]
  have hcharacter : fromU32 (pairCode high low) offset = .ok character := by
    have hvalid : character.toNat.isValidChar := character.valid
    rw [hcode, fromU32, if_pos hvalid, Char.ofNat_toNat]
  unfold unicode
  rw [hfirst, ok_bind]
  dsimp only
  rw [if_pos hhigh, hpair, ok_bind]
  dsimp only
  rw [hcharacter, ok_bind]

theorem escape_units (character offset pos rest) :
    ∃ after, escape offset ⟨((encodeUtf16 character).flatMap pushEscape).drop 1 ++ rest, pos⟩ =
      .ok (character, ⟨rest, after⟩) := by
  by_cases h : character.toNat < 0x10000
  · have hunits : encodeUtf16 character = [character.toNat] := if_pos h
    have hread := hex4_pushEscape h offset (pos + 1) rest
    rw [hunits]
    exact ⟨_, unicode_of_unit h hread⟩
  · have hvalid : character.toNat < 0xD800 ∨ 0xDFFF < character.toNat ∧ character.toNat < 0x110000 :=
      character.valid
    obtain ⟨hhigh, hlow, hcode⟩ := surrogates (Nat.le_of_not_lt h) (by omega)
    have hpair := unicode_of_pair hhigh hlow hcode offset (pos + 1) rest
    rw [encodeUtf16, if_neg h, flatMap_cons, flatMap_singleton,
      drop_append_of_le_length (Nat.le_add_left 1 5), append_assoc]
    exact ⟨_, hpair⟩

variable {rest : List Char}

theorem characters_escape {tail pos after} (count) (h : escape pos ⟨tail, pos + 1⟩ = .ok (character, ⟨rest, after⟩)) :
    characters (count + 1) ⟨'\\' :: tail, pos⟩ =
      (characters count ⟨rest, after⟩).map fun read => (character :: read.1, read.2) := by
  simp only [characters, h, bind, Except.bind, Except.map]
  simp

/-- A string that goes on with a character that stands for itself. -/
theorem characters_plain (count pos rest) (hquote : character ≠ '"') (hbackslash : character ≠ '\\')
    (hcontrol : ¬character.toNat < 0x20) :
    characters (count + 1) ⟨character :: rest, pos⟩ =
      (characters count ⟨rest, pos + character.utf8Size⟩).map fun read =>
        (character :: read.1, read.2) := by
  simp only [characters, if_neg hquote, if_neg hbackslash, if_neg hcontrol, bind, Except.bind, Except.map]

/-- How a character is written: as a two-character escape, as the escapes of its UTF-16 units, or as
itself. -/
inductive WrittenChar (character : Char) : List Char → Prop where
  | named {mark} (hmark : mark ≠ 'u') (hnamed : named mark = some character) :
      WrittenChar character ['\\', mark]
  | escaped : WrittenChar character ((encodeUtf16 character).flatMap pushEscape)
  | plain (hquote : character ≠ '"') (hbackslash : character ≠ '\\')
      (hcontrol : ¬character.toNat < 0x20) : WrittenChar character [character]

theorem WrittenChar.ite {condition} [Decidable condition]
    {first second} (hfirst : condition → WrittenChar character first)
    (hsecond : ¬condition → WrittenChar character second) :
    WrittenChar character (if condition then first else second) := by
  split
  · exact hfirst ‹_›
  · exact hsecond ‹_›

theorem writeChar_written (ensureAscii character) : WrittenChar character (writeChar ensureAscii character) := by
  have hcode : ∀ code, character.toNat = code → some (Char.ofNat code) = some character := by
    rintro code rfl
    rw [Char.ofNat_toNat]
  unfold writeChar
  refine .ite (fun h => .named (by decide) (by rw [h]; rfl)) fun hquote => ?_
  refine .ite (fun h => .named (by decide) (by rw [h]; rfl)) fun hbackslash => ?_
  refine .ite (fun h => .named (by decide) (by rw [h]; rfl)) fun hnewline => ?_
  refine .ite (fun h => .named (by decide) (by rw [h]; rfl)) fun hreturn => ?_
  refine .ite (fun h => .named (by decide) (by rw [h]; rfl)) fun htab => ?_
  refine .ite (fun h => .named (by decide) (hcode _ h)) fun hbackspace => ?_
  refine .ite (fun h => .named (by decide) (hcode _ h)) fun hfeed => ?_
  refine .ite (fun hcontrol => ?_) fun hcontrol => ?_
  · have hunits : (encodeUtf16 character).flatMap pushEscape = pushEscape character.toNat := by
      rw [encodeUtf16, if_pos (by omega), flatMap_singleton]
    rw [← hunits]
    exact .escaped
  refine .ite (fun _ => .plain hquote hbackslash hcontrol) fun _ => ?_
  -- Outside printable ASCII the option decides.
  cases ensureAscii with
  | false => exact .plain hquote hbackslash hcontrol
  | true => exact .escaped

variable {text : List Char}

theorem WrittenChar.reads (h : WrittenChar character text) (count pos rest) :
    ∃ after, characters (count + 1) ⟨text ++ rest, pos⟩ =
      (characters count ⟨rest, after⟩).map fun read => (character :: read.1, read.2) := by
  cases h with
  | @named mark hmark hnamed =>
    have hread : escape pos ⟨mark :: rest, pos + 1⟩ = .ok (character, ⟨rest, pos + 1 + 1⟩) := by
      simp only [escape, if_neg hmark, hnamed]
    exact ⟨_, characters_escape count hread⟩
  | escaped =>
    obtain ⟨after, hread⟩ := escape_units character pos (pos + 1) rest
    obtain ⟨others, hothers⟩ : ∃ others,
        (encodeUtf16 character).flatMap pushEscape = '\\' :: others := by
      unfold encodeUtf16
      split
      · exact ⟨_, rfl⟩
      · exact ⟨_, rfl⟩
    rw [hothers] at hread ⊢
    exact ⟨after, characters_escape count hread⟩
  | plain hquote hbackslash hcontrol =>
    exact ⟨_, characters_plain count pos rest hquote hbackslash hcontrol⟩

/-- The written characters of a text are read back up to the closing quote. -/
theorem characters_write (ensureAscii text count pos rest) (h : text.length < count) :
    ∃ after, characters count ⟨text.flatMap (writeChar ensureAscii) ++ '"' :: rest, pos⟩ =
      .ok (text, ⟨rest, after⟩) := by
  induction text generalizing count pos with
  | nil =>
    obtain ⟨count, rfl⟩ := Nat.exists_eq_succ_of_ne_zero (Nat.ne_of_gt h)
    exact ⟨pos + 1, by simp [characters]⟩
  | cons character text ih =>
    obtain ⟨count, rfl⟩ := Nat.exists_eq_succ_of_ne_zero (Nat.ne_of_gt (Nat.zero_lt_of_lt h))
    rw [flatMap_cons, append_assoc]
    obtain ⟨middle, hfirst⟩ := (writeChar_written ensureAscii character).reads count pos
      (text.flatMap (writeChar ensureAscii) ++ '"' :: rest)
    obtain ⟨after, hrest⟩ := ih count middle (Nat.lt_of_succ_lt_succ h)
    refine ⟨after, ?_⟩
    rw [hfirst, hrest]
    rfl

theorem length_flatMap_writeChar (ensureAscii) (text : List Char) :
    text.length ≤ (text.flatMap (writeChar ensureAscii)).length := by
  have hone : ∀ character, 1 ≤ (writeChar ensureAscii character).length := by
    intro character
    have hwritten := writeChar_written ensureAscii character
    generalize writeChar ensureAscii character = written at hwritten
    cases hwritten with
    | named => exact Nat.le_add_left 1 1
    | escaped =>
      unfold encodeUtf16
      split
      · exact Nat.le_add_left 1 5
      · exact Nat.le_add_left 1 11
    | plain => exact le_refl 1
  induction text with
  | nil => exact Nat.zero_le _
  | cons character text ih =>
    have hcharacter := hone character
    rw [flatMap_cons, length_append, length_cons]
    omega

theorem string_reads (ensureAscii) (text : String) :
    Reads Parser.string (writeString text ensureAscii) text fun _ => True := by
  intro rest pos _
  have hlength := length_flatMap_writeChar ensureAscii text.toList
  have hcount : text.toList.length < (writeString text ensureAscii ++ rest).length := by
    rw [writeString, length_append, length_append, length_cons]
    omega
  obtain ⟨after, hread⟩ := characters_write ensureAscii text.toList _ (pos + 1) rest hcount
  refine ⟨after, ?_⟩
  have htail : (writeString text ensureAscii ++ rest).drop 1 =
      text.toList.flatMap (writeChar ensureAscii) ++ '"' :: rest := by
    simp [writeString]
  unfold Parser.string
  rw [htail, hread, Except.map, String.ofList_toList]

/-- What may follow a value inside a compact document: the end, a comma or a closing bracket. -/
def Follows (rest : List Char) : Prop := ∀ next ∈ rest.head?, next = ',' ∨ next = ']' ∨ next = '}'

/-- A text whose first character is in none of a class. -/
def StartsOff (accepts : Char → Bool) (rest : List Char) : Prop :=
  ∀ next ∈ rest.head?, accepts next = false

structure Digits (text : List Char) : Prop where
  nonempty : text ≠ []
  digits : ∀ character ∈ text, isDigit character = true

theorem digits_zero : Digits ['0'] := by
  refine ⟨cons_ne_nil _ _, fun character hcharacter => ?_⟩
  rw [mem_singleton.mp hcharacter]
  rfl

/-- An integer part without a needless leading zero. -/
structure Whole (text : List Char) : Prop extends Digits text where
  leading : text.head? = some '0' → text = ['0']

inductive Fractional : List Char → Prop where
  | none : Fractional []
  | some {digits} (hdigits : Digits digits) : Fractional ('.' :: digits)

inductive Scaled : List Char → Prop where
  | none : Scaled []
  | some {sign digits} (hsign : sign = '+' ∨ sign = '-')
      (hdigits : Digits digits) : Scaled ('e' :: sign :: digits)

theorem Follows.startsOff {rest} (h : Follows rest) {accepts} (hcomma : accepts ',' = false) (hbracket : accepts ']' = false) (hbrace : accepts '}' = false) :
    StartsOff accepts rest := by
  intro next hnext
  rcases h next hnext with rfl | rfl | rfl
  · exact hcomma
  · exact hbracket
  · exact hbrace

theorem startsOff_cons {accepts first} (h : accepts first = false) : StartsOff accepts (first :: rest) :=
  fun _ hnext => Option.some.inj hnext ▸ h

theorem StartsOff.digits (h : StartsOff (fun next => isDigit next || next == '.') rest) : StartsOff isDigit rest :=
  fun next hnext => (Bool.or_eq_false_iff.mp (h next hnext)).1

theorem takeWhile_append {accepts} (h : ∀ character ∈ text, accepts character = true) (hrest : StartsOff accepts rest) :
    (text ++ rest).takeWhile accepts = text ∧ (text ++ rest).dropWhile accepts = rest := by
  rw [takeWhile_append_of_pos h, dropWhile_append_of_pos h]
  cases rest with
  | nil => simp
  | cons next rest => simp [hrest next rfl]

theorem eat_eq_none {pos} (h : rest.head? ≠ some character) : eat ⟨rest, pos⟩ character = none := by
  cases rest with
  | nil => rfl
  | cons next rest =>
    have hne : next ≠ character := fun heq => h (congrArg some heq)
    simp [eat, hne]

theorem eat_cons (character rest pos) : eat ⟨character :: rest, pos⟩ character = some ⟨rest, pos + 1⟩ := by
  simp [eat]

theorem requiredDigits_reads (h : Digits text) : Reads requiredDigits text text (StartsOff isDigit) := by
  intro rest pos hrest
  obtain ⟨htake, hdrop⟩ := takeWhile_append h.digits hrest
  refine ⟨pos + text.length, ?_⟩
  have hnonempty : text.isEmpty = false := by simpa using h.nonempty
  simp [requiredDigits, skipWhile, htake, hdrop, hnonempty]

theorem integral_reads (h : Whole text) : Reads integral text text (StartsOff isDigit) := by
  intro rest pos hrest
  by_cases hzero : text.head? = some '0'
  · obtain rfl := h.leading hzero
    exact ⟨pos + 1, by simp [integral, eat]⟩
  · obtain ⟨first, others, rfl⟩ := exists_cons_of_ne_nil h.nonempty
    obtain ⟨after, hread⟩ := requiredDigits_reads h.toDigits rest pos hrest
    refine ⟨after, ?_⟩
    unfold integral
    rw [eat_eq_none (by simpa using hzero), hread]

theorem fraction_reads (h : Fractional text) :
    Reads fraction text text (StartsOff fun next => isDigit next || next == '.') := by
  intro rest pos hrest
  cases h with
  | none =>
    refine ⟨pos, ?_⟩
    unfold fraction
    rw [nil_append, eat_eq_none]
    intro hpoint
    simpa using hrest '.' hpoint
  | @some digits hdigits =>
    obtain ⟨after, hread⟩ := requiredDigits_reads hdigits rest (pos + 1) hrest.digits
    refine ⟨after, ?_⟩
    unfold fraction
    rw [cons_append, eat_cons]
    simp only [hread, map_ok]

theorem exponent_reads (h : Scaled text) : Reads exponent text text Follows := by
  intro rest pos hrest
  cases h with
  | none =>
    have hmark : ∀ mark, mark ≠ ',' → mark ≠ ']' → mark ≠ '}' → rest.head? ≠ some mark := by
      intro mark hcomma hbracket hbrace hhead
      rcases hrest mark hhead with rfl | rfl | rfl
      · exact hcomma rfl
      · exact hbracket rfl
      · exact hbrace rfl
    refine ⟨pos, ?_⟩
    unfold exponent
    rw [nil_append, eat_eq_none (hmark 'e' (by decide) (by decide) (by decide))]
    dsimp only
    rw [eat_eq_none (hmark 'E' (by decide) (by decide) (by decide))]
  | @some sign digits hsign hdigits =>
    obtain ⟨after, hread⟩ := requiredDigits_reads hdigits rest (pos + 1 + 1)
      (hrest.startsOff rfl rfl rfl)
    refine ⟨after, ?_⟩
    unfold exponent
    rw [cons_append, eat_cons]
    dsimp only
    unfold scale
    rcases hsign with rfl | rfl
    · rw [cons_append, eat_cons]
      simp only [hread, map_ok]
      rfl
    · rw [cons_append, eat_eq_none (by simp), Parser.sign, eat_cons]
      simp only [hread, map_ok]
      rfl

theorem Scaled.startsOff {text rest} (h : Scaled text) (hrest : Follows rest) :
    StartsOff (fun next => isDigit next || next == '.') (text ++ rest) := by
  cases h with
  | none => exact hrest.startsOff rfl rfl rfl
  | some => exact startsOff_cons rfl

theorem Fractional.startsOff {text rest} (h : Fractional text)
    (hrest : StartsOff (fun next => isDigit next || next == '.') rest) : StartsOff isDigit (text ++ rest) := by
  cases h with
  | none => exact hrest.digits
  | some => exact startsOff_cons rfl

theorem sign_reads {signed} (hsigned : signed = [] ∨ signed = ['-']) (htext : Digits text) (rest pos) :
    ∃ after, sign '-' ⟨signed ++ (text ++ rest), pos⟩ = (signed, ⟨text ++ rest, after⟩) := by
  rcases hsigned with rfl | rfl
  · obtain ⟨first, others, rfl⟩ := exists_cons_of_ne_nil htext.nonempty
    have hfirst := htext.digits first mem_cons_self
    refine ⟨pos, ?_⟩
    unfold sign
    rw [nil_append, eat_eq_none]
    intro hhead
    obtain rfl : first = '-' := Option.some.inj hhead
    exact absurd hfirst (by decide)
  · exact ⟨pos + 1, by simp [sign, eat]⟩

theorem number_reads [Platform] {signed whole fractional scaled result}
    (hsigned : signed = [] ∨ signed = ['-']) (hwhole : Whole whole) (hfractional : Fractional fractional)
    (hscaled : Scaled scaled)
    (hresult : ∀ offset, (if fractional.isEmpty && scaled.isEmpty then integer (signed ++ whole) offset
      else float (signed ++ whole ++ fractional ++ scaled) offset) = .ok result) :
    Reads number (signed ++ whole ++ fractional ++ scaled) result Follows := by
  intro rest pos hrest
  have hexponent := hscaled.startsOff hrest
  obtain ⟨first, hsign⟩ := sign_reads hsigned hwhole.toDigits (fractional ++ (scaled ++ rest)) pos
  obtain ⟨second, hintegral⟩ :=
    integral_reads hwhole (fractional ++ (scaled ++ rest)) first (hfractional.startsOff hexponent)
  obtain ⟨third, hfraction⟩ := fraction_reads hfractional (scaled ++ rest) second hexponent
  obtain ⟨after, hscale⟩ := exponent_reads hscaled rest third hrest
  refine ⟨after, ?_⟩
  have htext : signed ++ whole ++ fractional ++ scaled ++ rest =
      signed ++ (whole ++ (fractional ++ (scaled ++ rest))) := by
    simp only [append_assoc]
  have hread := hresult pos
  unfold number
  rw [htext, hsign]
  simp only [hintegral, hfraction, hscale, ok_bind]
  split at hread
  · rename_i hinteger
    simp only [if_pos hinteger, hread, ok_bind]
  · rename_i hfloat
    simp only [if_neg hfloat, hread, ok_bind]

theorem isDigit_of_isDigit (h : character.isDigit = true) : isDigit character = true := by
  simp only [Char.isDigit, Bool.and_eq_true, decide_eq_true_eq] at h
  simp only [isDigit, Bool.and_eq_true, decide_eq_true_eq]
  exact h

theorem whole_toDigits (value) : Whole (Nat.toDigits 10 value) where
  nonempty := Nat.toDigits_ne_nil
  digits := by
    intro character hcharacter
    exact isDigit_of_isDigit (Nat.isDigit_of_mem_toDigits (by decide) (by decide) hcharacter)
  leading := by
    -- Only zero's text starts with a zero, by induction on the number without its last digit.
    induction value using Nat.strongRecOn with
    | _ value ih =>
      intro hzero
      by_cases hsmall : value < 10
      · rw [Nat.toDigits_of_lt_base hsmall] at hzero ⊢
        rw [Option.some.inj hzero]
      · have hsplit := Nat.toDigits_of_base_le (show 1 < 10 by decide) (not_lt.mp hsmall)
        have hne : Nat.toDigits 10 (value / 10) ≠ [] := Nat.toDigits_ne_nil
        have hhead : (Nat.toDigits 10 (value / 10)).head? = some '0' := by
          rw [hsplit, head?_append_of_ne_nil _ hne] at hzero
          exact hzero
        have hfront := ih (value / 10) (by omega) hhead
        have hvalue : value / 10 = 0 := by
          have hdecoded := Nat.ofDigitChars_ten_toDigits (n := value / 10)
          rw [hfront] at hdecoded
          exact hdecoded.symm
        omega

theorem minus_or_nil (negative) [Decidable negative] :
    (if negative then ['-'] else []) = [] ∨ (if negative then ['-'] else []) = ['-'] := by
  split
  · exact .inr rfl
  · exact .inl rfl

theorem toList_natText (value) : (toString value).toList = Nat.toDigits 10 value := by
  rw [Nat.toString_eq_ofList_toDigits, String.toList_ofList]

/-- The text of an integer: its sign and the digits of its magnitude. -/
theorem toList_intText (value : Int) :
    (toString value).toList = (if value < 0 then ['-'] else []) ++ Nat.toDigits 10 value.natAbs := by
  rw [Int.toString_eq_repr, Int.repr_eq_if]
  split_ifs with hnonneg hneg hneg
  · omega
  · have habs : value.natAbs = value.toNat := by omega
    rw [habs, nil_append, ← toList_natText]
    rfl
  · have habs : value.natAbs = (-value).toNat := by omega
    rw [habs, String.toList_append, ← toList_natText]
    rfl
  · omega

theorem decimal_intText (value : Int) : Parser.unsigned (toString value).toList = Nat.toDigits 10 value.natAbs ∧
      decimal (toString value).toList = value := by
  have hdecoded := @Nat.ofDigitChars_ten_toDigits value.natAbs
  rw [toList_intText]
  by_cases hneg : value < 0
  · rw [if_pos hneg]
    refine ⟨rfl, ?_⟩
    simp only [decimal, Parser.unsigned, cons_append, nil_append, head?_cons, if_true, hdecoded]
    omega
  · rw [if_neg hneg, nil_append]
    have hwhole := whole_toDigits value.natAbs
    obtain ⟨first, others, hcons⟩ := exists_cons_of_ne_nil hwhole.nonempty
    have hfirst : first ≠ '-' := by
      rintro rfl
      have hdigit := hwhole.digits '-' (by rw [hcons]; exact mem_cons_self)
      exact absurd hdigit (by decide)
    have hunsigned : Parser.unsigned (Nat.toDigits 10 value.natAbs) = Nat.toDigits 10 value.natAbs := by
      rw [hcons]
      unfold Parser.unsigned
      split
      · rename_i heq
        exact absurd (List.cons.inj heq).1 hfirst
      · rfl
    refine ⟨hunsigned, ?_⟩
    have hhead : (Nat.toDigits 10 value.natAbs).head? ≠ some '-' := by
      rw [hcons]
      exact fun heq => hfirst (Option.some.inj heq)
    rw [decimal, if_neg hhead, hunsigned, hdecoded]
    omega

/-- The literal of an integer is read as that integer, or as its own text beyond 64 bits. -/
theorem integer_intText {value} (offset) (hlength : (Nat.toDigits 10 value.natAbs).length ≤ maxIntegerDigits) :
    integer (toString value).toList offset = .ok (if fitsI64 value then .int value else .bigInt (toString value)) := by
  obtain ⟨hunsigned, hdecimal⟩ := decimal_intText value
  unfold integer
  rw [hunsigned, hdecimal, if_neg (not_lt.mpr hlength), String.ofList_toList]
  split <;> rfl

theorem number_intText [Platform] {value} (hlength : (Nat.toDigits 10 value.natAbs).length ≤ maxIntegerDigits) :
    Reads number (toString value).toList (if fitsI64 value then .int value else .bigInt (toString value)) Follows := by
  have hreads := @number_reads _ _ _ [] [] (if fitsI64 value then .int value else .bigInt (toString value))
    (minus_or_nil (value < 0)) (whole_toDigits value.natAbs) .none .none fun offset => by
      have hinteger := integer_intText offset hlength
      rw [toList_intText] at hinteger
      exact hinteger
  rw [append_nil, append_nil, ← toList_intText] at hreads
  exact hreads

/-- The text of a finite double reads back as that double. The library prints it in scientific notation
with one digit before the point, which is zero only for zero, and reads the nearest double. -/
structure ReadsBack [Platform] (bits : BitVec 64) : Prop where
  printed : (scientificParts (Platform.formatExp bits).toList).1 ≠ []
  leading : (scientificParts (Platform.formatExp bits).toList).1.head? = some '0' →
    scientificParts (Platform.formatExp bits).toList = (['0'], 0)
  nearest : Platform.parseFloat (String.ofList (floatRepr bits)) = some bits

theorem digits_append {left right} (hsome : Digits left ∨ Digits right)
    (hleft : ∀ character ∈ left, isDigit character = true)
    (hright : ∀ character ∈ right, isDigit character = true) : Digits (left ++ right) := by
  refine ⟨fun hnil => ?_, fun character hcharacter => ?_⟩
  · obtain ⟨rfl, rfl⟩ := append_eq_nil_iff.mp hnil
    exact hsome.elim (fun h => h.nonempty rfl) fun h => h.nonempty rfl
  · rcases mem_append.mp hcharacter with h | h
    · exact hleft character h
    · exact hright character h

theorem isDigit_replicate {count} : ∀ character ∈ List.replicate count '0', isDigit character = true := by
  intro character h
  rw [eq_of_mem_replicate h]
  rfl

theorem digits_twoDigits (value) : Digits (twoDigits value) := by
  have hwhole := (whole_toDigits value).toDigits
  unfold twoDigits
  rw [toList_natText]
  exact digits_append (.inr hwhole) isDigit_replicate hwhole.digits

theorem positional_parts {digits exponent} (hdigits : Digits digits)
    (hleading : digits.head? = some '0' → digits = ['0'] ∧ exponent = 0) :
    ∃ whole fractional, Whole whole ∧ Digits fractional ∧ positional digits exponent = whole ++ '.' :: fractional := by
  have hzero : Whole ['0'] := ⟨digits_zero, fun _ => rfl⟩
  unfold positional
  dsimp only
  by_cases hsmall : exponent + 1 ≤ 0
  · rw [if_pos hsmall]
    exact ⟨['0'], _, hzero, digits_append (.inr hdigits) isDigit_replicate hdigits.digits, rfl⟩
  rw [if_neg hsmall]
  obtain ⟨first, others, rfl⟩ := exists_cons_of_ne_nil hdigits.nonempty
  by_cases hlarge : ((first :: others).length : Int) ≤ exponent + 1
  · rw [if_pos hlarge]
    refine ⟨_, ['0'], ⟨digits_append (.inl hdigits) hdigits.digits isDigit_replicate, ?_⟩, digits_zero, rfl⟩
    intro hhead
    obtain ⟨hsame, rfl⟩ := hleading hhead
    rw [hsame]
    rfl
  · rw [if_neg hlarge]
    have hpoint : 0 < (exponent + 1).natAbs ∧ (exponent + 1).natAbs < (first :: others).length := by
      omega
    refine ⟨_, _, ⟨⟨?_, fun character h => hdigits.digits character (mem_of_mem_take h)⟩, ?_⟩,
      ⟨?_, fun character h => hdigits.digits character (mem_of_mem_drop h)⟩, rfl⟩
    · rw [Ne, take_eq_nil_iff, not_or]
      exact ⟨by omega, cons_ne_nil _ _⟩
    · intro hhead
      rw [head?_take, if_neg (by omega)] at hhead
      obtain ⟨hsame, -⟩ := hleading hhead
      rw [hsame] at hpoint
      simp only [length_singleton] at hpoint
      omega
    · rw [Ne, drop_eq_nil_iff]
      omega

/-- The text of a double by the parts of its literal. -/
theorem floatRepr_parts [Platform] {bits} (h : ReadsBack bits) :
    ∃ signed whole fractional scaled, (signed = [] ∨ signed = ['-']) ∧ Whole whole ∧
      Fractional fractional ∧ Scaled scaled ∧ (fractional.isEmpty && scaled.isEmpty) = false ∧
      floatRepr bits = signed ++ whole ++ fractional ++ scaled := by
  obtain ⟨hprinted, hleading, -⟩ := h
  unfold floatRepr
  generalize hparts : scientificParts (Platform.formatExp bits).toList = parts at hprinted hleading
  obtain ⟨digits, exponent⟩ := parts
  have hdigits : Digits digits := by
    refine ⟨hprinted, fun character hcharacter => isDigit_of_isDigit ?_⟩
    have hfiltered := congrArg Prod.fst hparts
    rw [← show _ = digits from hfiltered] at hcharacter
    exact (mem_filter.mp hcharacter).2
  have hsigned := minus_or_nil (2 ^ 63 ≤ bits.toNat)
  dsimp only
  by_cases hrange : -4 ≤ exponent ∧ exponent < 16
  · rw [if_pos hrange]
    obtain ⟨whole, fractional, hwhole, hfractional, htext⟩ := positional_parts hdigits fun hhead => by
      have hsame := hleading hhead
      exact ⟨congrArg Prod.fst hsame, congrArg Prod.snd hsame⟩
    refine ⟨_, whole, '.' :: fractional, [], hsigned, hwhole, .some hfractional, .none, rfl, ?_⟩
    rw [htext, append_nil, append_assoc]
  · rw [if_neg hrange]
    obtain ⟨first, others, rfl⟩ := exists_cons_of_ne_nil hdigits.nonempty
    have hwhole : Whole [first] := by
      refine ⟨⟨cons_ne_nil _ _, ?_⟩, fun hhead => by rw [Option.some.inj hhead]⟩
      intro character hcharacter
      rw [mem_singleton.mp hcharacter]
      exact hdigits.digits first mem_cons_self
    have hfractional : Fractional (if others.isEmpty then [] else '.' :: others) := by
      split
      · exact .none
      · rename_i hothers
        exact .some ⟨by simpa using hothers, fun character h =>
          hdigits.digits character (mem_cons_of_mem _ h)⟩
    have hscale : (if exponent < 0 then '-' else '+') = '+' ∨
        (if exponent < 0 then '-' else '+') = '-' := by
      split
      · exact .inr rfl
      · exact .inl rfl
    refine ⟨_, [first], _, _, hsigned, hwhole, hfractional, .some hscale (digits_twoDigits exponent.natAbs), ?_, ?_⟩
    · rw [isEmpty_cons, Bool.and_false]
    · simp only [take_succ_cons, take_zero, drop_succ_cons, drop_zero, append_assoc]

theorem number_floatRepr [Platform] {bits} (h : ReadsBack bits) :
    Reads number (floatRepr bits) (.float bits) Follows := by
  obtain ⟨signed, whole, fractional, scaled, hsigned, hwhole, hfractional, hscaled, hfloat, htext⟩ := floatRepr_parts h
  have hnearest := h.nearest
  rw [htext] at hnearest ⊢
  refine number_reads hsigned hwhole hfractional hscaled fun offset => ?_
  rw [hfloat, if_neg (by decide), float, hnearest]

end

mutual

def sorted : Value → Value
  | .array items => .array (sortedItems items)
  | .object members => .object ((sortedMembers members).insertionSort fun left right => left.1 ≤ right.1)
  | value => value

def sortedItems : List Value → List Value
  | [] => []
  | item :: rest => sorted item :: sortedItems rest

def sortedMembers : List (String × Value) → List (String × Value)
  | [] => []
  | (key, member) :: rest => (key, sorted member) :: sortedMembers rest

end

theorem sortedItems_eq_map (items) : sortedItems items = items.map sorted := by
  induction items with
  | nil => rfl
  | cons item rest ih => rw [sortedItems, ih, map_cons]

theorem sortedMembers_eq_map (members) :
    sortedMembers members = members.map fun member => (member.1, sorted member.2) := by
  induction members with
  | nil => rfl
  | cons member rest ih => rw [sortedMembers, ih, map_cons]

mutual

def nesting : Value → Nat
  | .array items => nestingItems items + 1
  | .object members => nestingMembers members + 1
  | _ => 0

def nestingItems : List Value → Nat
  | [] => 0
  | item :: rest => max (nesting item) (nestingItems rest)

def nestingMembers : List (String × Value) → Nat
  | [] => 0
  | (_, member) :: rest => max (nesting member) (nestingMembers rest)

end

theorem nesting_le_of_mem_items {items item} (h : item ∈ items) : nesting item ≤ nestingItems items := by
  induction items with
  | nil => cases h
  | cons first rest ih =>
    rw [nestingItems]
    rcases mem_cons.mp h with rfl | hrest
    · exact le_max_left _ _
    · exact le_trans (ih hrest) (le_max_right _ _)

theorem nesting_le_of_mem_members {members member} (h : member ∈ members) : nesting member.2 ≤ nestingMembers members := by
  induction members with
  | nil => cases h
  | cons first rest ih =>
    rw [nestingMembers]
    rcases mem_cons.mp h with rfl | hrest
    · exact le_max_left _ _
    · exact le_trans (ih hrest) (le_max_right _ _)

/-- A value the strict reader can decode: integers of 64 bits as numbers and longer ones as their text,
doubles whose text reads back, and objects that name no field twice. -/
inductive Decoded [Platform] : Value → Prop where
  | null : Decoded .null
  | bool (flag : Bool) : Decoded (.bool flag)
  | int {value} (hfits : fitsI64 value = true) : Decoded (.number (.int value))
  | bigInt {value} (hlarge : fitsI64 value = false)
      (hdigits : (Nat.toDigits 10 value.natAbs).length ≤ maxIntegerDigits) :
      Decoded (.number (.bigInt (toString value)))
  | float {bits} (hreads : ReadsBack bits) : Decoded (.number (.float bits))
  | string (text : String) : Decoded (.string text)
  | array {items} (hitems : ∀ item ∈ items, Decoded item) : Decoded (.array items)
  | object {members : List (String × Value)} (hunique : (members.map Prod.fst).Nodup)
      (hmembers : ∀ member ∈ members, Decoded member.2) : Decoded (.object members)

variable {close : Char} {texts : List (List Char)} {result : Value} {text : List Char}

section

variable {α : Type} {gap : List Char}

/-- A text that starts with neither whitespace nor a closing bracket. -/
def Opens (text : List Char) : Prop :=
  ∃ first others, text = first :: others ∧ isWhitespace first = false ∧ first ≠ ']' ∧ first ≠ '}'

def Blank (gap : List Char) : Prop := ∀ character ∈ gap, isWhitespace character = true

theorem skipWhitespace_append (hgap : Blank gap) {rest pos}
    (h : StartsOff isWhitespace rest) : skipWhitespace ⟨gap ++ rest, pos⟩ = ⟨rest, pos + gap.length⟩ := by
  obtain ⟨htake, hdrop⟩ := takeWhile_append hgap h
  simp [skipWhitespace, skipWhile, htake, hdrop]

theorem skipWhitespace_eq_self {rest pos} (h : StartsOff isWhitespace rest) :
    skipWhitespace ⟨rest, pos⟩ = ⟨rest, pos⟩ :=
  @skipWhitespace_append [] (forall_mem_nil _) rest pos h

theorem Opens.startsOff {text rest} (h : Opens text) : StartsOff isWhitespace (text ++ rest) := by
  obtain ⟨first, others, rfl, hfirst, -⟩ := h
  exact startsOff_cons hfirst

theorem Opens.head?_ne {rest} (h : Opens text) (hclose : close = ']' ∨ close = '}') : (text ++ rest).head? ≠ some close := by
  obtain ⟨first, others, rfl, -, hbracket, hbrace⟩ := h
  intro hhead
  obtain rfl : first = close := Option.some.inj hhead
  rcases hclose with rfl | rfl
  · exact hbracket rfl
  · exact hbrace rfl

theorem startsOff_close (hclose : close = ']' ∨ close = '}') (rest : List Char) :
    StartsOff isWhitespace (close :: rest) := by
  rcases hclose with rfl | rfl
  · exact startsOff_cons rfl
  · exact startsOff_cons rfl

theorem separator_close (hclose : close = ']' ∨ close = '}') (rest : List Char)
    (pos : Nat) : separator close ⟨close :: rest, pos⟩ = .ok (true, ⟨rest, pos + 1⟩) := by
  unfold separator
  rw [skipWhitespace_eq_self (startsOff_close hclose rest)]
  dsimp only
  rw [eat_cons]

theorem separator_comma (hgap : Blank gap)
    (hclose : close = ']' ∨ close = '}') (htext : Opens text) (rest : List Char) (pos : Nat) :
    separator close ⟨',' :: (gap ++ (text ++ rest)), pos⟩ = .ok (false, ⟨text ++ rest, pos + 1 + gap.length⟩) := by
  have hother : (',' :: (gap ++ (text ++ rest))).head? ≠ some close := by
    intro hhead
    obtain rfl : ',' = close := Option.some.inj hhead
    rcases hclose with h | h <;> cases h
  unfold separator
  rw [skipWhitespace_eq_self (startsOff_cons rfl)]
  dsimp only
  rw [eat_eq_none hother]
  dsimp only
  rw [eat_cons]
  dsimp only
  rw [skipWhitespace_append hgap htext.startsOff]

structure Element (read : Reader α) (text : List Char) (result : α) : Prop where
  opens : Opens text
  reads : Reads read text result Follows

theorem follows_close (hclose : close = ']' ∨ close = '}') (rest : List Char) : Follows (close :: rest) := by
  intro next hnext
  obtain rfl : close = next := Option.some.inj hnext
  exact .inr hclose

theorem follows_comma (rest) : Follows (',' :: rest) := by
  intro next hnext
  exact .inl (Option.some.inj hnext).symm

/-- Some joined texts start with the first of them. -/
theorem exists_intercalate_cons (gap text texts rest) :
    ∃ tail, (',' :: gap).intercalate (text :: texts) ++ rest = text ++ tail := by
  cases texts with
  | nil => exact ⟨rest, by rw [intercalate_singleton]⟩
  | cons second texts =>
    refine ⟨',' :: gap ++ (',' :: gap).intercalate (second :: texts) ++ rest, ?_⟩
    rw [intercalate_cons_cons]
    simp only [append_assoc]

variable {results : List α}

/-- Some written elements and the end of their container are read back. -/
theorem elements_reads (hgap : Blank gap) {read} (hclose : close = ']' ∨ close = '}')
    (h : List.Forall₂ (Element read) texts results)
    (hnonempty : texts ≠ []) (count pos : Nat) (hcount : texts.length ≤ count) (rest : List Char) :
    ∃ after, Parser.elements read close count ⟨(',' :: gap).intercalate texts ++ close :: rest, pos⟩ =
      .ok (results, ⟨rest, after⟩) := by
  induction h generalizing count pos with
  | nil => exact absurd rfl hnonempty
  | @cons text result texts results hfirst htail ih =>
    obtain ⟨count, rfl⟩ := Nat.exists_eq_succ_of_ne_zero (show count ≠ 0 by simp at hcount; omega)
    have hcount : texts.length ≤ count := Nat.le_of_succ_le_succ hcount
    cases htail with
    | nil =>
      obtain ⟨middle, hread⟩ := hfirst.reads (close :: rest) pos (follows_close hclose rest)
      refine ⟨middle + 1, ?_⟩
      rw [intercalate_singleton, Parser.elements, hread]
      simp only [ok_bind, separator_close hclose, if_true]
    | @cons second other texts results hsecond htail =>
      have htext : (',' :: gap).intercalate (text :: second :: texts) ++ close :: rest =
          text ++ ',' :: (gap ++ ((',' :: gap).intercalate (second :: texts) ++ close :: rest)) := by
        rw [intercalate_cons_cons]
        simp only [append_assoc, cons_append]
      obtain ⟨tail, hsplit⟩ := exists_intercalate_cons gap second texts (close :: rest)
      obtain ⟨middle, hread⟩ := hfirst.reads
        (',' :: (gap ++ ((',' :: gap).intercalate (second :: texts) ++ close :: rest))) pos (follows_comma _)
      obtain ⟨after, hothers⟩ := ih (cons_ne_nil _ _) count (middle + 1 + gap.length) hcount
      refine ⟨after, ?_⟩
      have hcomma := separator_comma hgap hclose hsecond.opens tail middle
      rw [← hsplit] at hcomma
      rw [htext, Parser.elements, hread]
      simp only [ok_bind, hcomma, hothers, Bool.false_eq_true, if_false]

theorem length_le_intercalate (gap) {read} (h : List.Forall₂ (Element read) texts results) :
    texts.length ≤ ((',' :: gap).intercalate texts).length := by
  induction h with
  | nil => exact Nat.zero_le _
  | @cons text _ texts _ hfirst _ ih =>
    obtain ⟨first, others, rfl, -⟩ := hfirst.opens
    cases texts with
    | nil =>
      rw [intercalate_singleton, length_singleton, length_cons]
      omega
    | cons second texts =>
      simp only [intercalate_cons_cons, length_append, length_cons] at ih ⊢
      omega

theorem container_reads (hgap : Blank gap) {read bracket close} (hclose : close = ']' ∨ close = '}')
    {texts : List (List Char)} {results : List α} (h : List.Forall₂ (Element read) texts results) :
    Reads (container read close) (bracket :: (',' :: gap).intercalate texts ++ [close]) results fun _ => True := by
  intro rest pos _
  have htext : (bracket :: (',' :: gap).intercalate texts ++ [close] ++ rest).drop 1 =
      (',' :: gap).intercalate texts ++ close :: rest := by
    simp only [cons_append, drop_succ_cons, drop_zero, append_assoc, nil_append]
  have hfirst : StartsOff isWhitespace ((',' :: gap).intercalate texts ++ close :: rest) ∧
      (texts ≠ [] → ((',' :: gap).intercalate texts ++ close :: rest).head? ≠ some close) := by
    cases h with
    | nil =>
      exact ⟨startsOff_close hclose rest, fun hnonempty => absurd rfl hnonempty⟩
    | @cons text _ texts _ hfirst _ =>
      obtain ⟨tail, hsplit⟩ := exists_intercalate_cons gap text texts (close :: rest)
      rw [hsplit]
      exact ⟨hfirst.opens.startsOff, fun _ => hfirst.opens.head?_ne hclose⟩
  unfold container
  dsimp only
  rw [htext, skipWhitespace_eq_self hfirst.1]
  by_cases hnonempty : texts = []
  · subst hnonempty
    cases h
    refine ⟨pos + 1 + 1, ?_⟩
    rw [show (',' :: gap).intercalate ([] : List (List Char)) = [] from rfl, nil_append, eat_cons]
  · rw [eat_eq_none (hfirst.2 hnonempty)]
    have hlength : texts.length ≤ ((',' :: gap).intercalate texts ++ close :: rest).length := by
      have hle := length_le_intercalate gap h
      rw [length_append]
      omega
    exact elements_reads hgap hclose h hnonempty _ (pos + 1) hlength rest

/-- The blank after a separator, none when the text is compact. -/
def gapOf (options : Options) : List Char := if options.compact then [] else [' ']

theorem blank_gapOf (options) : Blank (gapOf options) := by
  unfold gapOf
  split
  · exact forall_mem_nil _
  · exact forall_mem_singleton.mpr rfl

theorem itemSeparator_eq (options) : itemSeparator options = ',' :: gapOf options := by
  unfold itemSeparator gapOf
  split <;> rfl

theorem writeMember_eq (options key text) :
    writeMember options (key, text) = writeString key options.ensureAscii ++ ':' :: (gapOf options ++ text) := by
  unfold writeMember keySeparator gapOf
  split <;> simp

theorem member_element (options) {read key} (h : Element read text result) :
    Element (member read) (writeMember options (key, text)) (key, result) := by
  have hquote : ∃ others, writeString key options.ensureAscii = '"' :: others := ⟨_, rfl⟩
  obtain ⟨others, hothers⟩ := hquote
  rw [writeMember_eq]
  refine ⟨⟨'"', others ++ ':' :: (gapOf options ++ text), by rw [hothers, cons_append], rfl,
    by decide, by decide⟩, ?_⟩
  intro rest pos hrest
  obtain ⟨first, hstring⟩ := string_reads options.ensureAscii key (':' :: (gapOf options ++ (text ++ rest))) pos trivial
  obtain ⟨after, hread⟩ := h.reads rest (first + 1 + (gapOf options).length) hrest
  refine ⟨after, ?_⟩
  have hcolon : skipWhitespace ⟨':' :: (gapOf options ++ (text ++ rest)), first⟩ =
      ⟨':' :: (gapOf options ++ (text ++ rest)), first⟩ := skipWhitespace_eq_self (startsOff_cons rfl)
  have hhead : (writeString key options.ensureAscii ++ ':' :: (gapOf options ++ (text ++ rest))).head? =
      some '"' := by
    rw [hothers]
    rfl
  rw [append_assoc, cons_append, append_assoc]
  unfold member
  rw [if_pos hhead, hstring]
  simp only [ok_bind, hcolon, eat_cons, skipWhitespace_append (blank_gapOf options) h.opens.startsOff, hread, map_ok]

theorem repeats_of_nodup {keys} (h : keys.Nodup) : repeats keys = false := by
  induction keys with
  | nil => rfl
  | cons first rest ih =>
    obtain ⟨hfirst, hrest⟩ := nodup_cons.mp h
    cases rest with
    | nil => rfl
    | cons second rest =>
      have hne : first ≠ second := fun heq => hfirst (heq ▸ mem_cons_self)
      rw [repeats, ih hrest, Bool.or_false]
      simpa using hne

theorem unique_of_nodup {members} (h : (members.map Prod.fst).Nodup) (offset) :
    unique members offset = .ok (.object members) := by
  have hsorted : ((members.map Prod.fst).insertionSort (· ≤ ·)).Nodup := (perm_insertionSort _ _).nodup_iff.mpr h
  rw [unique, repeats_of_nodup hsorted, if_neg (by decide)]

end

variable {β : Type}

/-- Members in name order, each mapped at its own value, are the mapped members in name order. -/
theorem insertionSort_map_members {γ} (members : List (String × β)) (f : β → γ) :
    (members.map fun member => (member.1, f member.2)).insertionSort
        (fun left right => left.1 ≤ right.1) =
      (members.insertionSort fun left right => left.1 ≤ right.1).map fun member =>
        (member.1, f member.2) := by
  refine (map_insertionSort (fun left right : String × β => left.1 ≤ right.1)
    (fun left right : String × γ => left.1 ≤ right.1) (fun member => (member.1, f member.2)) members
    ?_).symm
  intro _ _ _ _
  rfl

theorem ordered_map {γ} (options : Options) (members : List (String × β)) (f : β → γ) :
    ordered options (members.map fun member => (member.1, f member.2)) =
      (ordered options members).map fun member => (member.1, f member.2) := by
  unfold ordered
  split
  · exact insertionSort_map_members members f
  · rfl

theorem ordered_perm (options) (members : List (String × β)) : (ordered options members).Perm members := by
  unfold ordered
  split
  · exact perm_insertionSort _ members
  · exact .refl members

/-- The text of a literal's parts starts with a sign or a digit. -/
theorem exists_head_of_parts {signed whole rest} (hsigned : signed = [] ∨ signed = ['-']) (hwhole : Whole whole) :
    ∃ first others, signed ++ whole ++ rest = first :: others ∧ (first = '-' ∨ isDigit first = true) := by
  obtain ⟨first, others, rfl⟩ := exists_cons_of_ne_nil hwhole.nonempty
  rcases hsigned with rfl | rfl
  · exact ⟨first, others ++ rest, rfl, .inr (hwhole.digits first mem_cons_self)⟩
  · exact ⟨'-', first :: others ++ rest, rfl, .inl rfl⟩

theorem ne_of_numeral {first} (h : first = '-' ∨ isDigit first = true) :
    ∀ mark, mark ≠ '-' → isDigit mark = false → first ≠ mark := by
  rintro mark hminus hdigit rfl
  rcases h with heq | htrue
  · exact hminus heq
  · rw [hdigit] at htrue
    cases htrue

theorem exists_head_intText (value : Int) :
    ∃ first others, (toString value).toList = first :: others ∧ (first = '-' ∨ isDigit first = true) := by
  have hhead := @exists_head_of_parts _ _ [] (minus_or_nil (value < 0)) (whole_toDigits value.natAbs)
  rwa [append_nil, ← toList_intText] at hhead

theorem length_toDigits_of_fitsI64 {value} (h : fitsI64 value = true) :
    (Nat.toDigits 10 value.natAbs).length ≤ maxIntegerDigits := by
  simp only [fitsI64, Bool.and_eq_true, decide_eq_true_eq] at h
  have hlength : (Nat.toDigits 10 value.natAbs).length ≤ 19 :=
    (Nat.length_toDigits_le_iff (by decide) (by decide)).mpr (by omega)
  exact le_trans hlength (by decide)

section

theorem ordered_canonical {α} (entries : List (String × α)) :
    ordered canonicalOptions entries = entries.insertionSort fun left right => left.1 ≤ right.1 := rfl

theorem insertionSort_insertionSort {α} (entries : List (String × α)) :
    (entries.insertionSort fun left right => left.1 ≤ right.1).insertionSort (fun left right => left.1 ≤ right.1) =
      entries.insertionSort fun left right => left.1 ≤ right.1 := by
  have htotal : Std.Total fun left right : String × α => left.1 ≤ right.1 :=
    ⟨fun left right => String.le_total left.1 right.1⟩
  have htrans : IsTrans (String × α) fun left right => left.1 ≤ right.1 :=
    ⟨fun _ _ _ hfirst hsecond => String.le_trans hfirst hsecond⟩
  exact List.Pairwise.insertionSort_eq (pairwise_insertionSort _ entries)

variable [Platform]

theorem writeItems_eq_map (options items) : writeItems options items = items.map (writeValue options) := by
  induction items with
  | nil => rfl
  | cons item rest ih => rw [writeItems, ih, map_cons]

theorem writeMembers_eq_map (options members) :
    writeMembers options members = members.map fun member => (member.1, writeValue options member.2) := by
  induction members with
  | nil => rfl
  | cons member rest ih => rw [writeMembers, ih, map_cons]

theorem dispatch_number (array object) {first others pos} (h : first = '-' ∨ isDigit first = true) :
    dispatch array object ⟨first :: others, pos⟩ =
      (number ⟨first :: others, pos⟩).map fun read => (.number read.1, read.2) := by
  have hother := ne_of_numeral h
  unfold dispatch
  dsimp only [head?_cons]
  split
  all_goals first
    | rename_i heq; exact absurd (Option.some.inj heq) (hother _ (by decide) (by decide))
    | skip
  · rename_i heq
    cases heq
    rw [if_pos h]
  · rename_i heq
    cases heq

theorem exists_value_eq_dispatch (levels) : ∃ array object, value levels = dispatch array object := by
  cases levels with
  | zero => exact ⟨_, _, rfl⟩
  | succ levels => exact ⟨_, _, rfl⟩

theorem number_element {result} (levels)
    (hhead : ∃ first others, text = first :: others ∧ (first = '-' ∨ isDigit first = true))
    (h : Reads number text result Follows) : Element (value levels) text (.number result) := by
  obtain ⟨array, object, hvalue⟩ := exists_value_eq_dispatch levels
  obtain ⟨first, others, rfl, hfirst⟩ := hhead
  have hnot := ne_of_numeral hfirst
  refine ⟨⟨first, others, rfl, ?_, hnot _ (by decide) (by decide), hnot _ (by decide) (by decide)⟩, ?_⟩
  · simp only [isWhitespace, Bool.or_eq_false_iff, beq_eq_false_iff_ne]
    exact ⟨⟨⟨hnot _ (by decide) (by decide), hnot _ (by decide) (by decide)⟩,
      hnot _ (by decide) (by decide)⟩, hnot _ (by decide) (by decide)⟩
  · intro rest pos hrest
    obtain ⟨after, hread⟩ := h rest pos hrest
    refine ⟨after, ?_⟩
    rw [cons_append] at hread ⊢
    rw [hvalue, dispatch_number array object hfirst, hread, map_ok]

theorem exists_head_floatRepr {bits} (h : ReadsBack bits) :
    ∃ first others, floatRepr bits = first :: others ∧ (first = '-' ∨ isDigit first = true) := by
  obtain ⟨signed, whole, fractional, scaled, hsigned, hwhole, -, -, -, htext⟩ := floatRepr_parts h
  rw [htext, append_assoc]
  exact exists_head_of_parts hsigned hwhole

theorem literal_element (levels) {word} (hopens : Opens word)
    (hword : ∀ array object rest pos, dispatch array object ⟨word ++ rest, pos⟩ =
      literal word result ⟨word ++ rest, pos⟩) : Element (value levels) word result := by
  obtain ⟨array, object, hvalue⟩ := exists_value_eq_dispatch levels
  refine ⟨hopens, fun rest pos _ => ⟨pos + word.length, ?_⟩⟩
  have hstart : word.isPrefixOf (word ++ rest) = true := isPrefixOf_iff_prefix.mpr (prefix_append word rest)
  rw [hvalue, hword, literal, if_pos hstart, drop_left]

/-- What reading a written value gives: its members in name order when they were written so. -/
def arranged (options : Options) (value : Value) : Value :=
  if options.sortKeys then sorted value else value

omit [Platform] in
theorem arranged_eq_self {options value} (h : sorted value = value) : arranged options value = value := by
  unfold arranged
  split
  · exact h
  · rfl

omit [Platform] in
theorem arranged_array (options items) : arranged options (.array items) = .array (items.map (arranged options)) := by
  unfold arranged
  split
  · rw [sorted, sortedItems_eq_map]
  · rw [map_id']

omit [Platform] in
theorem arranged_object (options) (members : List (String × Value)) : arranged options (.object members) =
      .object ((ordered options members).map fun member => (member.1, arranged options member.2)) := by
  unfold arranged ordered
  split
  · rw [sorted, sortedMembers_eq_map, insertionSort_map_members]
  · rw [map_id']

theorem array_element {gap} (hgap : Blank gap) {levels items} (h : List.Forall₂ (Element (value levels)) texts items) :
    Element (value (levels + 1)) ('[' :: (',' :: gap).intercalate texts ++ [']']) (.array items) := by
  refine ⟨⟨'[', _, rfl, rfl, by decide, by decide⟩, fun rest pos _ => ?_⟩
  obtain ⟨after, hread⟩ := @container_reads _ _ hgap _ '[' ']' (.inl rfl) _ _ h rest pos trivial
  have hdispatch : value (levels + 1) ⟨'[' :: (',' :: gap).intercalate texts ++ [']'] ++ rest, pos⟩ =
      (container (value levels) ']' ⟨'[' :: (',' :: gap).intercalate texts ++ [']'] ++ rest, pos⟩).map
        fun read => (.array read.1, read.2) := rfl
  exact ⟨after, by rw [hdispatch, hread, map_ok]⟩

theorem object_element {members gap} (hgap : Blank gap) {levels}

    (h : List.Forall₂ (Element (member (value levels))) texts members)
    (hnodup : (members.map Prod.fst).Nodup) :
    Element (value (levels + 1)) ('{' :: (',' :: gap).intercalate texts ++ ['}']) (.object members) := by
  refine ⟨⟨'{', _, rfl, rfl, by decide, by decide⟩, fun rest pos _ => ?_⟩
  obtain ⟨after, hread⟩ := @container_reads _ _ hgap _ '{' '}' (.inr rfl) _ _ h rest pos trivial
  have hdispatch : value (levels + 1) ⟨'{' :: (',' :: gap).intercalate texts ++ ['}'] ++ rest, pos⟩ =
      (container (member (value levels)) '}' ⟨'{' :: (',' :: gap).intercalate texts ++ ['}'] ++ rest, pos⟩ >>=
        fun read => unique read.1 pos >>= fun result => .ok (result, read.2)) := rfl
  refine ⟨after, ?_⟩
  rw [hdispatch, hread, ok_bind, unique_of_nodup hnodup, ok_bind]

/-- The text of a decoded value is read back, within the nesting it has, with its members in name
order. -/
theorem value_element (options : Options) (h : Decoded result) : ∀ levels, nesting result ≤ levels →
      Element (value levels) (writeValue options result) (arranged options result) := by
  induction h with
  | null =>
    intro levels _
    rw [arranged_eq_self rfl]
    exact literal_element levels ⟨'n', _, rfl, rfl, by decide, by decide⟩ fun _ _ _ _ => rfl
  | bool flag =>
    intro levels _
    rw [arranged_eq_self rfl]
    cases flag with
    | false => exact literal_element levels ⟨'f', _, rfl, rfl, by decide, by decide⟩ fun _ _ _ _ => rfl
    | true => exact literal_element levels ⟨'t', _, rfl, rfl, by decide, by decide⟩ fun _ _ _ _ => rfl
  | @int number hfits =>
    intro levels _
    have hreads := number_intText (length_toDigits_of_fitsI64 hfits)
    rw [if_pos hfits] at hreads
    rw [arranged_eq_self rfl]
    exact number_element levels (exists_head_intText number) hreads
  | @bigInt number hlarge hdigits =>
    intro levels _
    have hreads := number_intText hdigits
    rw [if_neg (by rw [hlarge]; decide)] at hreads
    rw [arranged_eq_self rfl]
    exact number_element levels (exists_head_intText number) hreads
  | float hreads =>
    intro levels _
    rw [arranged_eq_self rfl]
    exact number_element levels (exists_head_floatRepr hreads) (number_floatRepr hreads)
  | string text =>
    intro levels _
    rw [arranged_eq_self rfl]
    obtain ⟨array, object, hvalue⟩ := exists_value_eq_dispatch levels
    refine ⟨⟨'"', _, rfl, rfl, by decide, by decide⟩, fun rest pos _ => ?_⟩
    obtain ⟨after, hread⟩ := string_reads options.ensureAscii text rest pos trivial
    refine ⟨after, ?_⟩
    have hdispatch : dispatch array object ⟨writeString text options.ensureAscii ++ rest, pos⟩ =
        (Parser.string ⟨writeString text options.ensureAscii ++ rest, pos⟩).map fun read =>
          (.string read.1, read.2) := rfl
    rw [hvalue]
    exact hdispatch.trans (by rw [hread, map_ok])
  | @array items _ ih =>
    intro levels hlevels
    obtain ⟨levels, rfl⟩ := Nat.exists_eq_succ_of_ne_zero (show levels ≠ 0 by rw [nesting] at hlevels; omega)
    have hitems : List.Forall₂ (Element (value levels)) (items.map (writeValue options))
        (items.map (arranged options)) := by
      refine List.forall₂_map_left_iff.mpr (List.forall₂_map_right_iff.mpr
        (List.forall₂_same.mpr fun item hitem => ih item hitem levels ?_))
      have hle := nesting_le_of_mem_items hitem
      rw [nesting] at hlevels
      omega
    rw [writeValue, writeItems_eq_map, arranged_array, itemSeparator_eq]
    exact array_element (blank_gapOf options) hitems
  | @object members hunique _ ih =>
    intro levels hlevels
    obtain ⟨levels, rfl⟩ := Nat.exists_eq_succ_of_ne_zero (show levels ≠ 0 by rw [nesting] at hlevels; omega)
    have hperm := ordered_perm options members
    rw [writeValue, arranged_object, itemSeparator_eq, writeMembers_eq_map, ordered_map, map_map]
    refine object_element (blank_gapOf options) ?_ ?_
    · refine List.forall₂_map_left_iff.mpr (List.forall₂_map_right_iff.mpr
        (List.forall₂_same.mpr fun entry hentry => ?_))
      refine member_element options (ih entry (hperm.mem_iff.mp hentry) levels ?_)
      have hle := nesting_le_of_mem_members (hperm.mem_iff.mp hentry)
      rw [nesting] at hlevels
      omega
    · rw [map_map]
      exact (hperm.map Prod.fst).nodup_iff.mpr hunique

/-- The text of a decoded value is read back under every choice of the writer's options. -/
theorem parse_dumps (options) (h : Decoded result) (hnesting : nesting result ≤ maxDepth) :
    parse (dumps result options) = .ok (arranged options result) := by
  obtain ⟨hopens, hreads⟩ := value_element options h maxDepth hnesting
  obtain ⟨after, hread⟩ := hreads [] 0 fun next hnext => by cases hnext
  rw [append_nil] at hread
  have hstarts := @Opens.startsOff _ [] hopens
  rw [append_nil] at hstarts
  have hmark : (dumps result options).toList.head? ≠ some (Char.ofNat 0xFEFF) := by
    intro hhead
    rw [dumps, String.toList_ofList] at hhead
    obtain ⟨first, others, htext, -⟩ := hopens
    rw [htext] at hread hhead
    cases hhead
    cases hread
  have hend : skipWhitespace ⟨[], after⟩ = ⟨[], after⟩ := skipWhitespace_eq_self fun next hnext => by cases hnext
  rw [parse, if_neg hmark, dumps, String.toList_ofList, document, skipWhitespace_eq_self hstarts, hread]
  simp only [ok_bind, hend, isEmpty_nil, if_true]

theorem parse_canonical (h : Decoded result) (hnesting : nesting result ≤ maxDepth) :
    parse (canonical result) = .ok (sorted result) :=
  parse_dumps canonicalOptions h hnesting

/-- A value and the one with its members in name order have the same canonical text. -/
theorem writeValue_sorted (value) : writeValue canonicalOptions (sorted value) = writeValue canonicalOptions value := by
  induction value using Value.induct with
  | null | bool | number | string => rfl
  | array items ih =>
    rw [sorted, writeValue, writeValue, writeItems_eq_map, writeItems_eq_map, sortedItems_eq_map, map_map]
    have hitems : items.map (writeValue canonicalOptions ∘ sorted) =
        items.map (writeValue canonicalOptions) := map_congr_left ih
    rw [hitems]
  | object members ih =>
    have hmembers : members.map ((fun member => (member.1, writeValue canonicalOptions member.2)) ∘
          fun member => (member.1, sorted member.2)) =
        members.map fun member => (member.1, writeValue canonicalOptions member.2) := by
      refine map_congr_left fun member hmember => ?_
      rw [Function.comp_apply, ih member hmember]
    rw [sorted, writeValue, writeValue, writeMembers_eq_map, writeMembers_eq_map, ordered_canonical,
      ordered_canonical, ← insertionSort_map_members, insertionSort_insertionSort, sortedMembers_eq_map,
      map_map, hmembers]

theorem canonical_sorted (value) : canonical (sorted value) = canonical value := by
  rw [canonical, canonical, dumps, dumps, writeValue_sorted]

end

theorem utf8_ofList (text) : utf8 (String.ofList text) = text.flatMap String.utf8EncodeChar := by
  simp [utf8, String.ofList, List.utf8Encode]

theorem fromUTF8?_utf8 (text) : String.fromUTF8? ⟨(utf8 text).toArray⟩ = some text :=
  dif_pos text.isValidUTF8

theorem utf8_injective : Function.Injective utf8 := by
  intro first second h
  have hfirst := fromUTF8?_utf8 first
  rw [h, fromUTF8?_utf8] at hfirst
  exact (Option.some.inj hfirst).symm

end ShimpzTeams.Protocol
