import Mathlib
import ShimpzTeams.Library.Refusal

/-!
# Base64 of the Browser task

Texts are their UTF-8 bytes. The accumulators are `u32`, whose shifts drop what
leaves the word. The capacities asked for in advance only size an allocation and are
left out.
-/

namespace ShimpzTeams.Browser

open List ShimpzTeams.Library ShimpzTeams.Library.Checked

def alphabet : List UInt8 :=
  "ABCDEFGHIJKLMNOPQRSTUVWXYZabcdefghijklmnopqrstuvwxyz0123456789+/".toList.map fun character =>
    .ofNat character.toNat

/-- The byte of the padding character `=`. -/
def pad : UInt8 := 61

/-- The fold over the enumerated bytes of a chunk. -/
def groupFrom : List UInt8 → Nat → Nat → Checked Nat
  | [], _, group => .ok group
  | byte :: rest, position, group => do
    let shift ← sub 16 (8 * position)
    groupFrom rest (position + 1) (group ||| byte.toNat <<< shift)

def base64Group (chunk : List UInt8) : Checked (List UInt8) := do
  let group ← groupFrom chunk 0 0
  (List.range 4).mapM fun position =>
    if position ≤ chunk.length then do found .broken alphabet[group >>> (← sub 18 (6 * position)) &&& 0x3f]?
    else .ok pad

def base64 : List UInt8 → Checked (List UInt8)
  | first :: second :: third :: rest => do
    let group ← base64Group [first, second, third]
    .ok (group ++ (← base64 rest))
  | [first, second] => base64Group [first, second]
  | [first] => base64Group [first]
  | [] => .ok []

/-- The loop of `strict_base64`. -/
def readSextets : List UInt8 → Nat → Nat → List UInt8 → Checked (List UInt8)
  | [], _, _, bytes => .ok bytes
  | character :: rest, buffer, bits, bytes => do
    let sextet ← found absent (alphabet.idxOf? character)
    let buffer := (buffer <<< 6 ||| sextet) % 2 ^ 32
    let bits := bits + 6
    if 8 ≤ bits then
      let bits ← sub bits 8
      if 32 ≤ bits then .error .broken
      else readSextets rest buffer bits (bytes ++ [.ofNat (buffer >>> bits &&& 0xff)])
    else readSextets rest buffer bits bytes

def strictBase64 (data : List UInt8) : Checked (List UInt8) := do
  let body := data.rdropWhile (· == pad)
  let padding ← sub data.length body.length
  if data.length % 4 ≠ 0 ∨ 2 < padding then .error absent
  else readSextets body 0 0 []

def letter (sextet : Nat) : UInt8 := alphabet.getD (sextet % 64) 0

theorem alphabet_eq : alphabet = (range' 65 26 ++ range' 97 26 ++ range' 48 10 ++ [43, 47]).map .ofNat := by decide

theorem letter_spec (sextet) :
    alphabet[sextet % 64]? = some (letter sextet) ∧ alphabet.idxOf? (letter sextet) = some (sextet % 64) ∧
      letter sextet ≠ pad := by
  have hall : ∀ sextet < 64, alphabet[sextet]? = some (alphabet.getD sextet 0) ∧
      alphabet.idxOf? (alphabet.getD sextet 0) = some sextet ∧ alphabet.getD sextet 0 ≠ pad := by
    rw [alphabet_eq]
    decide
  exact hall _ (Nat.mod_lt sextet (by decide))

theorem exists_letter : ∀ character ∈ alphabet, ∃ sextet, letter sextet = character := by
  intro character hmem
  obtain ⟨sextet, hsextet, rfl⟩ := getElem_of_mem hmem
  have hlt : sextet < 64 := hsextet.trans_eq (by simp [alphabet_eq])
  exact ⟨sextet, by simp [letter, Nat.mod_eq_of_lt hlt, hsextet]⟩

theorem shiftLeft_or {low count} (high) (h : low < 2 ^ count) : high <<< count ||| low = high * 2 ^ count + low := by
  rw [Nat.shiftLeft_eq, Nat.mul_comm, Nat.two_pow_add_eq_or_of_lt h]

theorem readSextets_nil (buffer bits bytes) : readSextets [] buffer bits bytes = .ok bytes := rfl

/-- One sextet read with fewer than eight bits left over: a byte is complete or not. -/
theorem readSextets_letter {bits} (h : bits < 8) (sextet rest buffer bytes) :
    readSextets (letter sextet :: rest) buffer bits bytes = if 2 ≤ bits then
        readSextets rest ((buffer * 2 ^ 6 + sextet % 64) % 2 ^ 32) (bits - 2)
          (bytes ++ [.ofNat ((buffer * 2 ^ 6 + sextet % 64) % 2 ^ 32 / 2 ^ (bits - 2))])
      else readSextets rest ((buffer * 2 ^ 6 + sextet % 64) % 2 ^ 32) (bits + 6) bytes := by
  have hsextet : sextet % 64 < 2 ^ 6 := Nat.mod_lt sextet (by decide)
  rw [readSextets, (letter_spec sextet).2.1, found, ok_bind, shiftLeft_or buffer hsextet]
  by_cases hfull : 2 ≤ bits
  · have hleft : bits + 6 - 8 = bits - 2 := by omega
    have hbyte (word : Nat) : UInt8.ofNat (word &&& 255) = UInt8.ofNat word := by
      rw [← UInt8.toNat_inj, UInt8.toNat_ofNat', UInt8.toNat_ofNat',
        Nat.and_two_pow_sub_one_eq_mod word 8, Nat.mod_mod]
    rw [if_pos (by omega), if_pos hfull, sub_of_le (by omega), ok_bind, if_neg (by omega), hleft, hbyte,
      Nat.shiftRight_eq_div_pow]
  · rw [if_neg (by omega), if_neg hfull]

/-- The 24 bits of a chunk, as if zero bytes completed it. -/
def word (chunk : List UInt8) (high : Nat) : Nat := chunk.foldl (fun high byte => high * 2 ^ 8 + byte.toNat) high

/-- The bits of a chunk stand above those of the bytes that would complete it. -/
theorem groupFrom_eq (chunk position high) (h : position + chunk.length ≤ 3) :
    groupFrom chunk position (high <<< (24 - 8 * position)) =
      .ok (word chunk high <<< (24 - 8 * (position + chunk.length))) := by
  induction chunk generalizing position high with
  | nil => rfl
  | cons byte rest ih =>
    rw [length_cons] at h ⊢
    have hshift : 24 - 8 * position = 8 + (24 - 8 * (position + 1)) := by omega
    have hdone : 16 - 8 * position = 24 - 8 * (position + 1) := by omega
    rw [groupFrom, sub_of_le (by omega), ok_bind, hshift, hdone, Nat.shiftLeft_add, ← Nat.shiftLeft_or_distrib,
      shiftLeft_or high byte.toNat_lt, ih _ _ (by omega), Nat.add_assoc, Nat.add_comm 1]
    rfl

def character (chunk : List UInt8) (position : Nat) : UInt8 :=
  letter (word chunk 0 <<< (24 - 8 * chunk.length) / 2 ^ (18 - 6 * position))

theorem base64Group_eq {chunk} (h : chunk.length ≤ 3) : base64Group chunk =
      .ok ((List.range 4).map fun position => if position ≤ chunk.length then character chunk position else pad) := by
  have hgroup := groupFrom_eq chunk 0 0 (by omega)
  rw [Nat.zero_shiftLeft, Nat.zero_add] at hgroup
  rw [base64Group, hgroup, ok_bind]
  apply mapM_eq_map
  intro position hposition
  have hlt := mem_range.mp hposition
  split
  · rw [sub_of_le (by omega), ok_bind, Nat.shiftRight_eq_div_pow, Nat.and_two_pow_sub_one_eq_mod _ 6,
      (letter_spec _).1, found, character]
  · rfl

/-- What is written is a body and its padding, and the loop reads the body back. -/
theorem base64_body (bytes) : ∃ body count, base64 bytes = .ok (body ++ replicate count pad) ∧ pad ∉ body ∧ count ≤ 2 ∧
      (body.length + count) % 4 = 0 ∧ ∀ buffer before, readSextets body buffer 0 before = .ok (before ++ bytes) := by
  fun_induction base64 bytes with
  | case1 first second third rest ih =>
    obtain ⟨body, count, hrest, hpad, hcount, hlength, hread⟩ := ih
    refine ⟨(range 4).map (character [first, second, third]) ++ body, count, ?_, ?_, hcount, ?_, ?_⟩
    · rw [base64Group_eq le_rfl, ok_bind, hrest]
      rfl
    · simp [hpad, character, (letter_spec _).2.2]
    · simp only [length_append, length_map, length_range]
      omega
    · intro buffer before
      have hfirst := first.toNat_lt
      have hsecond := second.toNat_lt
      have hthird := third.toNat_lt
      simp [range_succ, character, word, readSextets_letter, hread, ← UInt8.toNat_inj, UInt8.toNat_ofNat']
      omega
  | case2 first second =>
    have hfirst := first.toNat_lt
    have hsecond := second.toNat_lt
    refine ⟨(range 3).map (character [first, second]), 1, base64Group_eq (by simp), ?_, by decide, by simp, ?_⟩
    · simp [character, (letter_spec _).2.2]
    · intro buffer before
      simp [range_succ, character, word, readSextets_letter, readSextets_nil, ← UInt8.toNat_inj, UInt8.toNat_ofNat']
      omega
  | case3 first =>
    have hfirst := first.toNat_lt
    refine ⟨(range 2).map (character [first]), 2, base64Group_eq (by simp), ?_, by decide, by simp, ?_⟩
    · simp [character, (letter_spec _).2.2]
    · intro buffer before
      simp [range_succ, character, word, readSextets_letter, readSextets_nil, ← UInt8.toNat_inj, UInt8.toNat_ofNat']
      omega
  | case4 => exact ⟨[], 0, rfl, by simp, by decide, rfl, fun buffer before => by simp [readSextets]⟩

/-- Only padding is trimmed from a text of the alphabet. -/
theorem rdropWhile_pad {body} (h : pad ∉ body) (count) :
    (body ++ replicate count pad).rdropWhile (· == pad) = body := by
  induction count with
  | zero =>
    rw [replicate_zero, append_nil, rdropWhile_eq_self_iff]
    intro hbody hlast
    exact h (eq_of_beq hlast ▸ getLast_mem hbody)
  | succ count ih =>
    rw [replicate_succ', ← append_assoc, rdropWhile_concat_pos _ _ _ (by exact beq_self_eq_true pad), ih]

/-- A text is its trimmed body and padding. -/
theorem exists_padding (data) : ∃ count, data.rdropWhile (· == pad) ++ replicate count pad = data := by
  have hpads : data.rtakeWhile (· == pad) = replicate (data.rtakeWhile (· == pad)).length pad := by
    apply eq_replicate_of_mem
    intro last hlast
    simpa using mem_rtakeWhile_imp hlast
  refine ⟨(data.rtakeWhile (· == pad)).length, ?_⟩
  rw [← hpads, rdropWhile_append_rtakeWhile]

theorem strictBase64_append {data body count} (h : data.rdropWhile (· == pad) = body)
    (hdata : body ++ replicate count pad = data) : strictBase64 data =
      if data.length % 4 ≠ 0 ∨ 2 < count then .error absent else readSextets body 0 0 [] := by
  have hlength : data.length = body.length + count := by simp [← hdata]
  rw [strictBase64, h, sub_of_le (by omega), ok_bind, hlength, Nat.add_sub_cancel_left]

/-- The loop returns on a text of the alphabet and refuses any other: fewer than eight bits are left over
each time. -/
theorem readSextets_cases (body buffer) {bits} (h : bits < 8) (bytes) :
    readSextets body buffer bits bytes = .error absent ∨
      (∀ character ∈ body, character ∈ alphabet) ∧ ∃ result, readSextets body buffer bits bytes = .ok result := by
  induction body generalizing buffer bits bytes with
  | nil => exact .inr ⟨by simp, bytes, rfl⟩
  | cons character rest ih =>
    rw [forall_mem_cons]
    by_cases hmem : character ∈ alphabet
    · obtain ⟨sextet, rfl⟩ := exists_letter character hmem
      rw [readSextets_letter h]
      split
      · exact (ih _ (by omega) _).imp_right fun hrest => ⟨⟨hmem, hrest.1⟩, hrest.2⟩
      · exact (ih _ (by omega) _).imp_right fun hrest => ⟨⟨hmem, hrest.1⟩, hrest.2⟩
    · rw [readSextets, idxOf?_eq_none_iff.mpr hmem]
      exact .inl rfl

/-- Every byte string is read back from its text; a text is read only when it is whole groups of four
characters of the alphabet, of which up to two at the end are padding; and neither reader nor writer
breaks. -/
theorem base64_faithful :
    (∀ bytes, ∃ text, base64 bytes = .ok text ∧ strictBase64 text = .ok bytes) ∧
      ∀ data, strictBase64 data ≠ .error .broken ∧
        ∀ bytes, strictBase64 data = .ok bytes →
          data.length % 4 = 0 ∧ ∃ body count, data = body ++ replicate count pad ∧ count ≤ 2 ∧
            ∀ character ∈ body, character ∈ alphabet := by
  constructor
  · intro bytes
    obtain ⟨body, count, hwritten, hpad, hcount, hlength, hread⟩ := base64_body bytes
    refine ⟨_, hwritten, ?_⟩
    rw [strictBase64_append (rdropWhile_pad hpad count) rfl, length_append, length_replicate, if_neg (by omega), hread,
      nil_append]
  · intro data
    obtain ⟨count, hdata⟩ := exists_padding data
    rw [strictBase64_append rfl hdata]
    split
    · exact ⟨nofun, nofun⟩
    · rcases readSextets_cases (data.rdropWhile (· == pad)) 0 (by decide : 0 < 8) [] with hrefused | ⟨hbody, bytes, hread⟩
      · rw [hrefused]
        exact ⟨nofun, nofun⟩
      · rw [hread]
        exact ⟨nofun, fun _ _ => ⟨by omega, _, count, hdata.symm, by omega, hbody⟩⟩

end ShimpzTeams.Browser
