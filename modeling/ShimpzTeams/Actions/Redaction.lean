import ShimpzTeams.Library.Base64
import ShimpzTeams.Library.Splice
import ShimpzTeams.Protocol.Json

/-!
# Redacting what Team holds in a failure's text

Each held value is replaced in every common encoding, ignoring ASCII case; then
secret-shaped text is replaced through the end of its value; then a trailing
prefix of a held value that a producer may have clipped is withheld; and the
text is cut to its bound. The passes run on marked characters as they run on plain
ones. No pass joins what was apart: a stretch of copied characters after a pass was
one before it, and the pass over a needle leaves no stretch that is the needle.
-/

namespace ShimpzTeams.Actions

open Protocol Library

def redactedMarker : List Char := "[REDACTED]".toList

/-- A derived encoding shorter than this matches too much ordinary text to identify a value. -/
def minDerived : Nat := 4

/-- The shortest trailing prefix of a held value that is withheld as possibly clipped. -/
def minClipped : Nat := 4

def asciiLower (character : Char) : Char :=
  if 'A' ≤ character ∧ character ≤ 'Z' then Char.ofNat (character.toNat + 32) else character

def toAsciiLowercase (text : List Char) : List Char := text.map asciiLower

def upperHexDigit (nibble : Nat) : Char :=
  if nibble < 10 then Char.ofNat (48 + nibble) else Char.ofNat (55 + nibble)

/-- Whether percent encoding leaves a byte as it is. -/
def unreserved (byte : UInt8) : Bool :=
  let character := Char.ofNat byte.toNat
  ('A' ≤ character && character ≤ 'Z') || ('a' ≤ character && character ≤ 'z') ||
    ('0' ≤ character && character ≤ '9') || ['_', '.', '-', '~'].contains character

/-- `quote(text, safe="")`, or `quote_plus` with `plus`. -/
def percent (secret : String) (plus : Bool) : List Char :=
  (utf8 secret).flatMap fun byte =>
    if unreserved byte then [Char.ofNat byte.toNat]
    else if byte.toNat == 0x20 && plus then ['+']
    else ['%', upperHexDigit (byte.toNat / 16), upperHexDigit (byte.toNat % 16)]

def jsonBody (secret : String) (ensureAscii : Bool) : List Char :=
  ((writeString secret ensureAscii).drop 1).dropLast

def escapedSlashes (text : List Char) : List Char :=
  text.flatMap fun character => if character == '/' then ['\\', '/'] else [character]

/-- The base64 characters that depend on the value alone when some bytes stand before it. -/
def base64Core (raw : List UInt8) (offset : Nat) : List Char :=
  let encoded := Base64.encode (List.replicate offset 0 ++ raw)
  let first := (offset * 4 + 2) / 3
  let last := (offset + raw.length) * 8 / 6
  -- a range that does not lie inside the text is empty
  if first ≤ last ∧ last ≤ encoded.length then (encoded.take last).drop first else []

def urlSafe (text : List Char) : List Char :=
  text.map fun character =>
    if character == '+' then '-' else if character == '/' then '_' else character

/-- The common encodings an Action may print a value in: JSON, percent and form encoding, hexadecimal,
and both base64 alphabets at each of the three byte alignments. -/
def encodings (secret : String) : List (List Char) :=
  [jsonBody secret true, jsonBody secret false, escapedSlashes (jsonBody secret true),
    percent secret false, percent secret true, (hex (utf8 secret)).toList] ++
    [0, 1, 2].flatMap fun offset =>
      [urlSafe (base64Core (utf8 secret) offset), base64Core (utf8 secret) offset]

/-- The folded needles, longest first. -/
structure Redactor where
  needles : List (List Char)

/-- Whether one needle stands before another: the longer first, then by its text. -/
def Before (left right : List Char) : Prop :=
  right.length < left.length ∨ (left.length = right.length ∧ String.ofList left ≤ String.ofList right)

instance : DecidableRel Before := fun left right =>
  inferInstanceAs (Decidable (right.length < left.length ∨
    (left.length = right.length ∧ String.ofList left ≤ String.ofList right)))

/-- `dedup`: of equal neighbours, one. -/
def dedupNeighbours : List (List Char) → List (List Char)
  | first :: second :: rest =>
    if first = second then dedupNeighbours (second :: rest)
    else first :: dedupNeighbours (second :: rest)
  | needles => needles

/-- What is looked for of one held value: itself, and its encodings that are long enough. -/
def needlesOf (secret : String) : List (List Char) :=
  toAsciiLowercase secret.toList ::
    ((encodings secret).filter fun form => minDerived ≤ form.length).map toAsciiLowercase

/-- `Redactor::new`: a redactor of some secrets and their common encodings; an empty value is ignored. -/
def Redactor.ofSecrets (secrets : List String) : Redactor where
  needles := dedupNeighbours
    (((secrets.filter fun secret => !secret.isEmpty).flatMap needlesOf).insertionSort Before)

/-- The patterns of secret-shaped text, in the order they are substituted. -/
inductive Pattern where
  | privateKey
  | authorization
  | webToken
  | providerKey
  | assigned
  | urlUserinfo
  deriving DecidableEq

def Pattern.all : List Pattern :=
  [.privateKey, .authorization, .webToken, .providerKey, .assigned, .urlUserinfo]

/-- What stands after the kept part of a match. -/
def Pattern.replacement : Pattern → List Char
  | .urlUserinfo => redactedMarker ++ ['@']
  | _ => redactedMarker

/-- The part of a match its substitution keeps: an assigned name or a URL's scheme. -/
def Pattern.span : Pattern → Splice.Span → Splice.Span
  | .assigned, span => span
  | .urlUserinfo, span => span
  | _, span => ⟨span.before, 0, span.kept + span.replaced⟩

/-- The pattern engine: the matches of a pattern in a text, `none` when it gives up. -/
class PatternEngine where
  spans : Pattern → List Char → Option (List Splice.Span)

section

/- The passes work on glyphs that each show a character. The code's own glyphs are characters. -/
variable {γ : Type} (char : γ → Char) (insert : Char → γ)

def folded (text : List γ) : List Char := toAsciiLowercase (text.map char)

def replaceNeedle (text : List γ) (needle : List Char) : List γ :=
  Splice.replaceFrom (fun rest => needle.isPrefixOf (folded char rest)) needle.length
    (redactedMarker.map insert) 0 text

/-- Every ASCII-case-insensitive occurrence of each held value or encoding, longest first, replaced. -/
def Redactor.replaceHeld (redactor : Redactor) (text : List γ) : List γ :=
  redactor.needles.foldl (replaceNeedle char insert) text

def substitute [PatternEngine] (text : List γ) (pattern : Pattern) : List γ :=
  match PatternEngine.spans pattern (text.map char) with
  | none => redactedMarker.map insert
  | some spans =>
    Splice.substitute (pattern.replacement.map insert) (spans.map pattern.span) text

def utf8Length (text : List Char) : Nat := (text.map Char.utf8Size).sum

def clipsAt (text : List Char) (needle : List Char) (index : Nat) : Bool :=
  let rest := text.drop index
  decide (utf8Length rest ≤ utf8Length needle - 1) && decide (minClipped ≤ rest.length) && rest.isPrefixOf needle

/-- Where the longest trailing piece that is a clipped needle starts, from where it is known to start
at the latest. -/
def clippedStart (text : List Char) (start : Nat) (needle : List Char) : Nat :=
  ((List.range text.length).find? fun index =>
    clipsAt text needle index && decide (index < start)).getD start

/-- The longest trailing piece that is a proper prefix of a held value, withheld. -/
def Redactor.withholdClipped (redactor : Redactor) (text : List γ) : List γ :=
  let start := redactor.needles.foldl (clippedStart (folded char text)) text.length
  if start = text.length then text else text.take start ++ redactedMarker.map insert

/-- Every pass before the bound. -/
def Redactor.redacted [PatternEngine] (redactor : Redactor) (text : List γ) : List γ :=
  redactor.withholdClipped char insert
    (Pattern.all.foldl (substitute char insert) (redactor.replaceHeld char insert text))

/-- `bound`: the text cut to at most so many UTF-8 bytes on a character boundary. -/
def bound : Nat → List γ → List γ
  | _, [] => []
  | limit, glyph :: rest =>
    if (char glyph).utf8Size ≤ limit then glyph :: bound (limit - (char glyph).utf8Size) rest
    else []

end

/-- The redacted text, whether anything was replaced or withheld, and whether it was cut to `limit`
bytes. -/
def Redactor.text [PatternEngine] (redactor : Redactor) (value : String) (limit : Nat) : String × Bool × Bool :=
  let redacted := redactor.redacted id id value.toList
  let bounded := bound id limit redacted
  (String.ofList bounded, redacted != value.toList, utf8Length bounded != utf8Length redacted)

open Splice List

variable {needle stretch : List Char} {needles : List (List Char)}

section

variable {γ δ : Type} {char : γ → Char} {insert : Char → γ} {char' : δ → Char} {insert' : Char → δ}

structure Shows (char : γ → Char) (insert : Char → γ) (char' : δ → Char) (insert' : Char → δ) (f : γ → δ) : Prop where
  char : ∀ glyph, char' (f glyph) = char glyph
  insert : ∀ character, f (insert character) = insert' character

variable {f : γ → δ} (h : Shows char insert char' insert' f)
include h

theorem Shows.map_char (text : List γ) : (text.map f).map char' = text.map char := by
  rw [map_map]
  exact map_congr_left fun glyph _ => h.char glyph

theorem Shows.folded (text : List γ) : folded char' (text.map f) = folded char text := by
  rw [Actions.folded, Actions.folded, h.map_char]

theorem Shows.map_insert (characters : List Char) : (characters.map insert).map f = characters.map insert' := by
  rw [map_map]
  exact map_congr_left fun character _ => h.insert character

theorem Shows.replaceNeedle (text : List γ) (needle) :
    (replaceNeedle char insert text needle).map f = Actions.replaceNeedle char' insert' (text.map f) needle := by
  unfold Actions.replaceNeedle
  rw [← h.map_insert]
  refine map_replaceFrom f (fun rest => ?_) needle.length (redactedMarker.map insert) 0 text
  rw [h.folded]

theorem Shows.replaceHeld (redactor : Redactor) (text) :
    (redactor.replaceHeld char insert text).map f = redactor.replaceHeld char' insert' (text.map f) := by
  unfold Redactor.replaceHeld
  induction redactor.needles generalizing text with
  | nil => rfl
  | cons needle rest ih => rw [foldl_cons, foldl_cons, ih, h.replaceNeedle]

theorem Shows.substitute [PatternEngine] (text pattern) :
    (substitute char insert text pattern).map f = Actions.substitute char' insert' (text.map f) pattern := by
  unfold Actions.substitute
  rw [h.map_char]
  cases PatternEngine.spans pattern (text.map char) with
  | none => exact h.map_insert redactedMarker
  | some spans =>
    have hreplaced := map_substitute f (pattern.replacement.map insert) (spans.map pattern.span) text
    rw [h.map_insert] at hreplaced
    exact hreplaced

theorem Shows.substituteAll [PatternEngine] (patterns : List Pattern) (text) :
    (patterns.foldl (Actions.substitute char insert) text).map f =
      patterns.foldl (Actions.substitute char' insert') (text.map f) := by
  induction patterns generalizing text with
  | nil => rfl
  | cons pattern rest ih => rw [foldl_cons, foldl_cons, ih, h.substitute]

theorem Shows.withholdClipped (redactor : Redactor) (text) :
    (redactor.withholdClipped char insert text).map f = redactor.withholdClipped char' insert' (text.map f) := by
  simp only [Redactor.withholdClipped, h.folded, length_map]
  split_ifs
  · rfl
  · rw [map_append, map_take, h.map_insert]

theorem Shows.redacted [PatternEngine] (redactor : Redactor) (text) :
    (redactor.redacted char insert text).map f = redactor.redacted char' insert' (text.map f) := by
  rw [Redactor.redacted, Redactor.redacted, h.withholdClipped, h.substituteAll, h.replaceHeld]

theorem Shows.bound (limit text) : (bound char limit text).map f = Actions.bound char' limit (text.map f) := by
  induction text generalizing limit with
  | nil => rfl
  | cons glyph rest ih =>
    rw [Actions.bound, map_cons, Actions.bound, h.char]
    split_ifs
    · rw [map_cons, ih]
    · rfl

end

section

def inserted (character : Char) : Item Char := ⟨character, false⟩

/-- A marked character shows what a plain one does. -/
theorem shows_value : Shows Item.value inserted id id (Item.value : Item Char → Char) :=
  ⟨fun _ => rfl, fun _ => rfl⟩

theorem redactedMarker_ne_nil : redactedMarker ≠ [] := by decide

theorem replacement_ne_nil (pattern : Pattern) : pattern.replacement ≠ [] := by
  cases pattern <;> decide

variable {text : List (Item Char)}

theorem finer_inserts (marker) (text : List (Item Char)) : Finer (inserts marker) text := by
  intro stretch hstretch
  have hnone : Stretch stretch (inserts marker ++ []) := by
    rw [append_nil]
    exact hstretch
  rw [stretch_nil_iff.mp hnone.of_inserts_append]
  exact stretch_nil text

theorem finer_replaceNeedle (needle text) : Finer (replaceNeedle Item.value inserted text needle) text :=
  finer_replaceFrom redactedMarker_ne_nil 0 text

theorem finer_replaceHeld (needles : List (List Char)) (text) :
    Finer (needles.foldl (replaceNeedle Item.value inserted) text) text := by
  induction needles generalizing text with
  | nil => exact Finer.refl text
  | cons needle rest ih =>
    rw [foldl_cons]
    exact (ih _).trans (finer_replaceNeedle needle text)

theorem not_stretch_replaceNeedle (hneedle : needle ≠ []) (hstretch : toAsciiLowercase stretch = needle) :
    ¬Stretch stretch (replaceNeedle Item.value inserted text needle) := by
  refine not_stretch_replaceFrom redactedMarker_ne_nil ?_ ?_ 0 text
  · rintro rfl
    exact hneedle hstretch.symm
  · intro rest
    have hshown : folded Item.value (copies stretch ++ rest) = needle ++ folded Item.value rest := by
      rw [folded, map_append, show (copies stretch).map Item.value = stretch from
        erase_copies stretch, toAsciiLowercase, map_append, ← hstretch]
      rfl
    rw [hshown, isPrefixOf_iff_prefix]
    exact prefix_append needle _

theorem not_stretch_replaceHeld (hmem : needle ∈ needles) (hneedle : needle ≠ [])
    (hstretch : toAsciiLowercase stretch = needle) :
    ¬Stretch stretch (needles.foldl (replaceNeedle Item.value inserted) text) := by
  obtain ⟨before, after, rfl⟩ := append_of_mem hmem
  rw [foldl_append, foldl_cons]
  intro h
  exact not_stretch_replaceNeedle hneedle hstretch (finer_replaceHeld after _ stretch h)

variable [PatternEngine]

theorem finer_substitute_pattern (pattern : Pattern) (text : List (Item Char)) :
    Finer (substitute Item.value inserted text pattern) text := by
  unfold substitute
  split
  · exact finer_inserts redactedMarker text
  · exact finer_substitute (replacement_ne_nil pattern) _ text

theorem finer_substitute_all (patterns : List Pattern) (text) :
    Finer (patterns.foldl (substitute Item.value inserted) text) text := by
  induction patterns generalizing text with
  | nil => exact Finer.refl text
  | cons pattern rest ih =>
    rw [foldl_cons]
    exact (ih _).trans (finer_substitute_pattern pattern text)

omit [PatternEngine] in
theorem finer_withholdClipped (redactor : Redactor) (text) :
    Finer (redactor.withholdClipped Item.value inserted text) text := by
  simp only [Redactor.withholdClipped]
  split_ifs
  · exact Finer.refl text
  · intro stretch hstretch
    have hsplit : Stretch stretch (text.take
        (redactor.needles.foldl (clippedStart (folded Item.value text)) text.length) ++
          inserts redactedMarker ++ []) := by
      rw [append_nil]
      exact hstretch
    rcases hsplit.separated redactedMarker_ne_nil with hleft | hnone
    · exact hleft.trans (List.take_prefix _ _).isInfix
    · rw [stretch_nil_iff.mp hnone]
      exact stretch_nil text

/-- Every pass together: no stretch is new, and none is a needle. -/
theorem redacted_stretches (redactor : Redactor) (text) : Finer (redactor.redacted Item.value inserted text) text ∧
      ∀ needle ∈ redactor.needles, needle ≠ [] → ∀ stretch, toAsciiLowercase stretch = needle →
        ¬Stretch stretch (redactor.redacted Item.value inserted text) := by
  have hlater : Finer (redactor.redacted Item.value inserted text)
      (redactor.replaceHeld Item.value inserted text) :=
    (finer_withholdClipped redactor _).trans (finer_substitute_all Pattern.all _)
  refine ⟨hlater.trans (finer_replaceHeld redactor.needles text), ?_⟩
  intro needle hmem hneedle stretch hstretch h
  exact not_stretch_replaceHeld hmem hneedle hstretch (hlater stretch h)

end

theorem clippedStart_le (text start needle) : clippedStart text start needle ≤ start := by
  unfold clippedStart
  cases hfound : (List.range text.length).find? fun index =>
      clipsAt text needle index && decide (index < start) with
  | none => exact le_refl start
  | some index =>
    have hindex := find?_some hfound
    simp only [Bool.and_eq_true, decide_eq_true_eq] at hindex
    exact Nat.le_of_lt hindex.2

theorem foldl_clippedStart_le (text) (needles : List (List Char)) (start) :
    needles.foldl (clippedStart text) start ≤ start := by
  induction needles generalizing start with
  | nil => exact le_refl start
  | cons needle rest ih => exact (ih _).trans (clippedStart_le text start needle)

/-- When nothing is withheld, no trailing piece clips a needle. -/
theorem not_clipsAt_of_foldl {text}
    (h : needles.foldl (clippedStart text) text.length = text.length) (hneedle : needle ∈ needles)
    {index} (hindex : index < text.length) : clipsAt text needle index = false := by
  obtain ⟨before, after, rfl⟩ := append_of_mem hneedle
  rw [foldl_append, foldl_cons] at h
  have hbefore := foldl_clippedStart_le text before text.length
  have hstep := clippedStart_le text (before.foldl (clippedStart text) text.length) needle
  have hafter := foldl_clippedStart_le text after
    (clippedStart text (before.foldl (clippedStart text) text.length) needle)
  have hstart : before.foldl (clippedStart text) text.length = text.length := by omega
  have hkept : clippedStart text text.length needle = text.length := by
    rw [hstart] at hstep hafter h
    omega
  cases hclips : clipsAt text needle index with
  | false => rfl
  | true =>
    cases hfound : (List.range text.length).find? fun index =>
        clipsAt text needle index && decide (index < text.length) with
    | none =>
      have hnone := find?_eq_none.mp hfound index (mem_range.mpr hindex)
      simp [hclips, hindex] at hnone
    | some found =>
      have hlt : found < text.length := mem_range.mp (mem_of_find?_eq_some hfound)
      rw [clippedStart, hfound, Option.getD_some] at hkept
      omega

theorem utf8Length_append (left right) : utf8Length (left ++ right) = utf8Length left + utf8Length right := by
  simp [utf8Length]

theorem utf8Length_lt_of_prefix {piece} (h : piece <+: needle) (hne : piece ≠ needle) :
    utf8Length piece < utf8Length needle := by
  obtain ⟨rest, rfl⟩ := h
  cases rest with
  | nil => simp at hne
  | cons character rest =>
    have hsize := Char.utf8Size_pos character
    rw [utf8Length_append]
    simp only [utf8Length, map_cons, sum_cons]
    omega

theorem withholdClipped_trailing {redactor : Redactor} {text}
    (hstretch : copies stretch <:+ redactor.withholdClipped Item.value inserted text)
    (hlength : minClipped ≤ stretch.length) (hneedle : needle ∈ redactor.needles)
    (hclips : toAsciiLowercase stretch <+: needle) : toAsciiLowercase stretch = needle := by
  have hnonempty : stretch ≠ [] := by
    rintro rfl
    exact absurd hlength (by decide)
  simp only [Redactor.withholdClipped] at hstretch
  split_ifs at hstretch with hstart
  · by_contra hproper
    obtain ⟨before, rfl⟩ := hstretch
    have hshown : folded Item.value (before ++ copies stretch) =
        folded Item.value before ++ toAsciiLowercase stretch := by
      rw [folded, map_append, show (copies stretch).map Item.value = stretch from
        erase_copies stretch, toAsciiLowercase, map_append]
      rfl
    have hfoldedLength : (folded Item.value (before ++ copies stretch)).length =
        (before ++ copies stretch).length := by simp [folded, toAsciiLowercase]
    rw [← hfoldedLength] at hstart
    have hbefore : (folded Item.value before).length <
        (folded Item.value (before ++ copies stretch)).length := by
      rw [hshown, length_append]
      have := length_pos_iff.mpr hnonempty
      simpa [toAsciiLowercase] using this
    have hnone := not_clipsAt_of_foldl hstart hneedle hbefore
    have hrest : (folded Item.value (before ++ copies stretch)).drop (folded Item.value before).length =
        toAsciiLowercase stretch := by rw [hshown, drop_left]
    have hshorter := utf8Length_lt_of_prefix hclips hproper
    have hclipsAt : clipsAt (folded Item.value (before ++ copies stretch)) needle
        (folded Item.value before).length = true := by
      simp only [clipsAt, hrest, Bool.and_eq_true, decide_eq_true_eq, isPrefixOf_iff_prefix]
      refine ⟨⟨by omega, ?_⟩, hclips⟩
      simpa [toAsciiLowercase] using hlength
    rw [hclipsAt] at hnone
    cases hnone
  · -- the text ends with the marker
    have hends : redactedMarker.map inserted = inserts "[REDACTED".toList ++ [inserted ']'] := rfl
    rw [hends, ← append_assoc, suffix_concat_iff] at hstretch
    rcases hstretch with hnone | ⟨before, hlast, -⟩
    · exact absurd (by simpa [copies] using hnone) hnonempty
    · have hmem : inserted ']' ∈ copies stretch := hlast ▸ mem_append_right _ mem_cons_self
      exact absurd hmem (not_mem_copies _ stretch)

theorem bound_isPrefix {γ} (char limit) (text : List γ) : bound char limit text <+: text := by
  induction text generalizing limit with
  | nil => exact prefix_rfl
  | cons glyph rest ih =>
    rw [bound]
    split_ifs
    · exact cons_prefix_cons.mpr ⟨rfl, ih _⟩
    · exact nil_prefix

theorem utf8Length_bound (limit text) : utf8Length (bound id limit text) ≤ limit := by
  induction text generalizing limit with
  | nil => exact Nat.zero_le limit
  | cons character rest ih =>
    rw [bound]
    split_ifs with hfits
    · have hrest := ih (limit - character.utf8Size)
      change character.utf8Size ≤ limit at hfits
      change character.utf8Size + utf8Length (bound id (limit - character.utf8Size) rest) ≤ limit
      omega
    · exact Nat.zero_le limit

theorem utf8ByteSize_ofList (text) : (String.ofList text).utf8ByteSize = utf8Length text := by
  rw [String.utf8ByteSize_ofList]
  induction text with
  | nil => rfl
  | cons character rest ih =>
    rw [String.utf8Len_cons, ih]
    simp only [utf8Length, map_cons, sum_cons]
    exact Nat.add_comm _ _

/-- A form in which Team holds a secret: itself, or a listed encoding that is long enough. -/
def Held (secrets : List String) (form : List Char) : Prop :=
  ∃ secret ∈ secrets, secret ≠ "" ∧ (form = secret.toList ∨ (form ∈ encodings secret ∧ minDerived ≤ form.length))

theorem mem_dedupNeighbours : needle ∈ dedupNeighbours needles ↔ needle ∈ needles := by
  induction needles using dedupNeighbours.induct with
  | case1 first rest ih =>
    rw [dedupNeighbours, if_pos rfl, ih]
    simp
  | case2 first second rest hne ih =>
    rw [dedupNeighbours, if_neg hne, mem_cons, ih]
    exact mem_cons.symm
  | case3 needles hshort =>
    rw [dedupNeighbours]
    exact hshort

theorem mem_needles_of_held {secrets form} (h : Held secrets form) :
    toAsciiLowercase form ∈ (Redactor.ofSecrets secrets).needles ∧ toAsciiLowercase form ≠ [] := by
  obtain ⟨secret, hsecret, hnonempty, hform⟩ := h
  constructor
  · have hlisted : toAsciiLowercase form ∈ needlesOf secret := by
      rcases hform with rfl | ⟨hencoding, hlength⟩
      · exact mem_cons_self
      · refine mem_cons_of_mem _ (mem_map_of_mem (mem_filter.mpr ⟨hencoding, ?_⟩))
        exact decide_eq_true hlength
    rw [Redactor.ofSecrets, mem_dedupNeighbours, mem_insertionSort, mem_flatMap]
    exact ⟨secret, mem_filter.mpr ⟨hsecret, by simpa using hnonempty⟩, hlisted⟩
  · rw [toAsciiLowercase, Ne, map_eq_nil_iff]
    rintro rfl
    rcases hform with hempty | ⟨-, hlength⟩
    · exact hnonempty (String.toList_eq_nil_iff.mp hempty.symm)
    · exact absurd hlength (by decide)

variable [PatternEngine]

def Redactor.marked (redactor : Redactor) (value : String) : List (Item Char) :=
  redactor.redacted Item.value inserted (copies value.toList)

theorem erase_marked (redactor : Redactor) (value : String) :
    erase (redactor.marked value) = redactor.redacted id id value.toList := by
  have hshown := shows_value.redacted redactor (copies value.toList)
  rw [show (copies value.toList).map Item.value = value.toList from erase_copies _] at hshown
  exact hshown

theorem text_eq_erase (redactor : Redactor) (value limit) :
    (redactor.text value limit).1 = String.ofList (erase (bound Item.value limit (redactor.marked value))) := by
  have hbound := shows_value.bound limit (redactor.marked value)
  rw [show (redactor.marked value).map Item.value = _ from erase_marked redactor value] at hbound
  exact congrArg String.ofList hbound.symm

/-- Redaction leaves no held secret: what a redacted text copies from its input holds no form of a
secret, before its cut it does not end in a clipped one, and the cut text fits its bound. -/
theorem redaction_leaves_no_held_secret (secrets : List String) (value : String) (limit : Nat) :
    let redactor := Redactor.ofSecrets secrets
    let whole := redactor.marked value
    let result := (redactor.text value limit).1
    result = String.ofList (erase (bound Item.value limit whole)) ∧
      (∀ stretch, Stretch stretch (bound Item.value limit whole) →
        stretch <:+: value.toList ∧
          ∀ form, Held secrets form → ¬toAsciiLowercase form <:+: toAsciiLowercase stretch) ∧
      (∀ stretch, copies stretch <:+ whole → minClipped ≤ stretch.length →
        ∀ form, Held secrets form →
          ¬(toAsciiLowercase stretch <+: toAsciiLowercase form ∧ toAsciiLowercase stretch ≠ toAsciiLowercase form)) ∧
      result.utf8ByteSize ≤ limit ∧ result.toByteArray.IsValidUTF8 := by
  intro redactor whole result
  obtain ⟨hfiner, hfree⟩ := redacted_stretches redactor (copies value.toList)
  have hcut : Finer (bound Item.value limit whole) whole :=
    finer_of_infix (bound_isPrefix Item.value limit whole).isInfix
  refine ⟨text_eq_erase redactor value limit, ?_, ?_, ?_, result.isValidUTF8⟩
  · intro stretch hstretch
    have hwhole := hcut stretch hstretch
    refine ⟨stretch_copies.mp (hfiner stretch hwhole), ?_⟩
    intro form hform hinfix
    obtain ⟨hneedle, hnonempty⟩ := mem_needles_of_held hform
    obtain ⟨piece, hpiece, hsame⟩ := infix_map_iff.mp hinfix
    refine hfree _ hneedle hnonempty piece hsame.symm ?_
    exact List.IsInfix.trans (stretch_copies.mpr hpiece) hwhole
  · intro stretch hstretch hlength form hform
    rintro ⟨hclips, hproper⟩
    exact hproper (withholdClipped_trailing hstretch hlength (mem_needles_of_held hform).1 hclips)
  · have hsize : result.utf8ByteSize = utf8Length (bound id limit (redactor.redacted id id value.toList)) :=
      utf8ByteSize_ofList _
    rw [hsize]
    exact utf8Length_bound limit _

end ShimpzTeams.Actions
