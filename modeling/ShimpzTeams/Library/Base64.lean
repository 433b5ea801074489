import Mathlib.Data.List.Forall2
import Mathlib.Data.UInt

/-!
# Base64

Three bytes are four sextets. The last one or two bytes are two or three, padded
in the standard form. A strict reading is the inverse of writing; a lax one also
reads texts whose last character carries bits that complete no byte.
-/

namespace ShimpzTeams.Library.Base64

open List

/-- The sextets of some bytes, the last one filled with zero bits. -/
def sextets : List UInt8 → List Nat
  | first :: second :: third :: rest =>
    let bits := (first.toNat * 256 + second.toNat) * 256 + third.toNat
    bits / 2 ^ 18 :: bits / 2 ^ 12 % 64 :: bits / 2 ^ 6 % 64 :: bits % 64 :: sextets rest
  | [first, second] =>
    let bits := (first.toNat * 256 + second.toNat) * 4
    [bits / 2 ^ 12, bits / 2 ^ 6 % 64, bits % 64]
  | [first] => [first.toNat / 4, first.toNat % 4 * 16]
  | [] => []

def standardChar (sextet : Nat) : Char :=
  if sextet < 26 then Char.ofNat (65 + sextet)
  else if sextet < 52 then Char.ofNat (71 + sextet)
  else if sextet < 62 then Char.ofNat (sextet - 4)
  else if sextet == 62 then '+'
  else '/'

def urlSafeChar (sextet : Nat) : Char :=
  if sextet == 62 then '-' else if sextet == 63 then '_' else standardChar sextet

/-- How many padding characters end the standard form of so many bytes. -/
def padding (count : Nat) : Nat := (3 - count % 3) % 3

def encode (bytes : List UInt8) : List Char :=
  (sextets bytes).map standardChar ++ List.replicate (padding bytes.length) '='

/-- The bytes of some sextets: no sextet stands alone, and unless the reading is lax the bits that
fill the last one are zero. -/
def bytesOf (lax : Bool) : List Nat → Option (List UInt8)
  | first :: second :: third :: fourth :: rest =>
    let bits := ((first * 64 + second) * 64 + third) * 64 + fourth
    (bytesOf lax rest).map fun later =>
      .ofNat (bits / 2 ^ 16) :: .ofNat (bits / 2 ^ 8) :: .ofNat bits :: later
  | [first, second, third] =>
    if lax || third % 4 == 0 then
      some [.ofNat (first * 4 + second / 16), .ofNat (second % 16 * 16 + third / 4)]
    else none
  | [first, second] =>
    if lax || second % 16 == 0 then some [.ofNat (first * 4 + second / 16)] else none
  | [_] => none
  | [] => some []

theorem lt_of_mem_sextets {bytes} : ∀ sextet ∈ sextets bytes, sextet < 64 := by
  fun_induction sextets bytes with
  | case1 first second third rest bits ih =>
    have hfirst := first.toNat_lt
    have hsecond := second.toNat_lt
    have hthird := third.toNat_lt
    simp only [forall_mem_cons]
    refine ⟨?_, ?_, ?_, ?_, ih⟩ <;> omega
  | case2 first second bits =>
    have hfirst := first.toNat_lt
    have hsecond := second.toNat_lt
    simp only [forall_mem_cons]
    refine ⟨?_, ?_, ?_, by simp⟩ <;> omega
  | case3 first =>
    have hfirst := first.toNat_lt
    simp only [forall_mem_cons]
    refine ⟨?_, ?_, by simp⟩ <;> omega
  | case4 => simp

/-- What is written is read, strictly or not. -/
theorem bytesOf_sextets (lax bytes) : bytesOf lax (sextets bytes) = some bytes := by
  fun_induction sextets bytes with
  | case1 first second third rest bits ih =>
    have hfirst := first.toNat_lt
    have hsecond := second.toNat_lt
    have hthird := third.toNat_lt
    simp only [bytesOf, ih, Option.map_some, Option.some.injEq, List.cons.injEq, and_true,
      ← UInt8.toNat_inj, UInt8.toNat_ofNat']
    omega
  | case2 first second bits =>
    have hfirst := first.toNat_lt
    have hsecond := second.toNat_lt
    have hzero : bits % 64 % 4 = 0 := by omega
    simp only [bytesOf, hzero, beq_self_eq_true, Bool.or_true, if_true, Option.some.injEq,
      List.cons.injEq, and_true, ← UInt8.toNat_inj, UInt8.toNat_ofNat']
    omega
  | case3 first =>
    have hfirst := first.toNat_lt
    have hzero : first.toNat % 4 * 16 % 16 = 0 := by omega
    simp only [bytesOf, hzero, beq_self_eq_true, Bool.or_true, if_true, Option.some.injEq,
      List.cons.injEq, and_true, ← UInt8.toNat_inj, UInt8.toNat_ofNat']
    omega
  | case4 => rfl

def sextetOf (alphabet : Nat → Char) (character : Char) : Option Nat :=
  (List.range 64).find? fun sextet => alphabet sextet == character

/-- Unpadded base64. -/
def encodeBare (alphabet : Nat → Char) (bytes : List UInt8) : List Char := (sextets bytes).map alphabet

def decodeBare (alphabet : Nat → Char) (lax : Bool) (text : List Char) : Option (List UInt8) :=
  (text.mapM (sextetOf alphabet)).bind (bytesOf lax)

/-- The bytes of a padded standard text: its padding fills the last group of four. -/
def decode (lax : Bool) (text : List Char) : Option (List UInt8) :=
  let body := text.takeWhile (· != '=')
  if text = body ++ List.replicate ((4 - body.length % 4) % 4) '=' then
    decodeBare standardChar lax body
  else none

def Distinct (alphabet : Nat → Char) : Prop :=
  ∀ first < 64, ∀ second < 64, alphabet first = alphabet second → first = second

/-- The sextet of a character of either alphabet, by its code point. -/
def sextetOfCode (code : Nat) : Nat :=
  if 97 ≤ code then code - 71 else if code = 95 then 63 else if 65 ≤ code then code - 65
  else if 48 ≤ code then code + 4 else if code ≤ 45 then 62 else 63

theorem Distinct.of_codes {alphabet : Nat → Char}
    (h : ∀ sextet < 64, sextetOfCode (alphabet sextet).toNat = sextet) : Distinct alphabet := by
  intro first hfirst second hsecond hsame
  rw [← h first hfirst, hsame, h second hsecond]

theorem distinct_standardChar : Distinct standardChar := .of_codes (by decide)

theorem distinct_urlSafeChar : Distinct urlSafeChar := .of_codes (by decide)

variable {alphabet : Nat → Char}

theorem sextetOf_alphabet (h : Distinct alphabet) {sextet} (hsextet : sextet < 64) :
    sextetOf alphabet (alphabet sextet) = some sextet := by
  cases hfound : sextetOf alphabet (alphabet sextet) with
  | none =>
    have hnone := find?_eq_none.mp hfound sextet (mem_range.mpr hsextet)
    simp at hnone
  | some found =>
    have hsome : alphabet found = alphabet sextet := by simpa using find?_some hfound
    have hlt : found < 64 := mem_range.mp (mem_of_find?_eq_some hfound)
    rw [h found hlt sextet hsextet hsome]

theorem mapM_sextetOf (h : Distinct alphabet) {given : List Nat} (hgiven : ∀ sextet ∈ given, sextet < 64) :
    (given.map alphabet).mapM (sextetOf alphabet) = some given := by
  induction given with
  | nil => rfl
  | cons first rest ih =>
    obtain ⟨hfirst, hrest⟩ := forall_mem_cons.mp hgiven
    rw [map_cons, mapM_cons, sextetOf_alphabet h hfirst, ih hrest]
    rfl

theorem decodeBare_encodeBare (h : Distinct alphabet) (lax : Bool) (bytes) :
    decodeBare alphabet lax (encodeBare alphabet bytes) = some bytes := by
  unfold decodeBare encodeBare
  rw [mapM_sextetOf h lt_of_mem_sextets, Option.bind_some, bytesOf_sextets]

theorem length_sextets (bytes) : (4 - (sextets bytes).length % 4) % 4 = padding bytes.length := by
  unfold padding
  fun_induction sextets bytes with
  | case1 first second third rest bits ih =>
    simp only [length_cons] at ih ⊢
    omega
  | case2 => rfl
  | case3 => rfl
  | case4 => rfl

theorem standardChar_ne_pad : ∀ sextet < 64, standardChar sextet ≠ '=' := by decide

theorem decode_encode (lax bytes) : decode lax (encode bytes) = some bytes := by
  have hbody : (encode bytes).takeWhile (· != '=') = (sextets bytes).map standardChar := by
    unfold encode
    rw [takeWhile_append_of_pos]
    · cases padding bytes.length with
      | zero => simp
      | succ count => simp [replicate_succ]
    · intro character hcharacter
      obtain ⟨sextet, hsextet, rfl⟩ := mem_map.mp hcharacter
      simpa using standardChar_ne_pad sextet (lt_of_mem_sextets sextet hsextet)
  unfold decode
  rw [hbody]
  simp only [length_map, length_sextets]
  rw [if_pos (by rfl)]
  exact decodeBare_encodeBare distinct_standardChar lax bytes

end ShimpzTeams.Library.Base64
