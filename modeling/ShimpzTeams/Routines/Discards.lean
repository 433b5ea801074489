import ShimpzTeams.Routines.Exclusivity
import ShimpzTeams.Routines.Sample

/-!
# The names of a run's generations, and the removal queue

A name is a network, a run and one of three suffixes written one after the other. A
run queues the removal of what each of its generations held: one when it ends first or
is held, one more after it continues. Counting what is queued together with what each
record may still queue bounds the queue over every interleaving, because a claim
starts a run only below eight queued removals.
-/

namespace ShimpzTeams.Routines

open StrictJson Protocol List

/-- What follows the run in the name of one of its generations. -/
inductive Suffix where
  | own
  | continuation
  | verification
  deriving DecidableEq, Repr

def Suffix.text : Suffix → String
  | .own => ""
  | .continuation => "s1"
  | .verification => "v1"

structure Generation where
  network : String
  run : String
  suffix : Suffix
  hexNetwork : isHexText 64 network = true
  hexRun : isHexText 32 run = true

def Generation.name (generation : Generation) : String :=
  generationFor generation.network generation.run generation.suffix.text

/-- `str::split_once`: what stands before the first separator, and what stands after it. -/
def splitOnce (separator : List Char) : List Char → Option (List Char × List Char)
  | [] => none
  | character :: rest =>
    match List.dropPrefix? (character :: rest) separator with
    | some after => some ([], after)
    | none => (splitOnce separator rest).map fun (before, after) => (character :: before, after)

/-- `generation_of` of the store's codec: none yet, or exactly this run's own or continuation
generation in a Team network, never a verification's. -/
def generationOf (runId generation : String) : Bool :=
  if generation.isEmpty then true
  else match splitOnce ":routine:".toList generation.toList with
    | none => false
    | some (network, rest) =>
      isHexText 64 (String.ofList network) &&
        (rest == runId.toList || List.dropSuffix? rest ":s1".toList == some runId.toList)

section

variable {separator text before after : List Char} {head : Char}

theorem dropPrefix?_eq_some : List.dropPrefix? text separator = some after ↔ text = separator ++ after := by
  simp [dropPrefix?_eq_some_iff]

theorem append_of_splitOnce (h : splitOnce separator text = some (before, after)) :
    text = before ++ separator ++ after := by
  induction text generalizing before with
  | nil => cases h
  | cons character rest ih =>
    unfold splitOnce at h
    split at h
    · next found hfound =>
      cases h
      exact dropPrefix?_eq_some.mp hfound
    · obtain ⟨⟨shorter, _⟩, hrest, heq⟩ := Option.map_eq_some_iff.mp h
      cases heq
      rw [ih hrest, cons_append, cons_append]

/-- The first separator is the one written, when its first character is nowhere before it. -/
theorem splitOnce_append (hbefore : head ∉ before) :
    splitOnce (head :: separator) (before ++ (head :: separator) ++ after) = some (before, after) := by
  induction before with
  | nil =>
    have hfound : List.dropPrefix? (head :: (separator ++ after)) (head :: separator) = some after :=
      dropPrefix?_eq_some.mpr rfl
    simp [splitOnce, hfound]
  | cons character rest ih =>
    obtain ⟨hne, hrest⟩ := not_or.mp (fun h => hbefore (mem_cons.mpr h))
    have hnone : List.dropPrefix? (character :: rest ++ (head :: separator) ++ after) (head :: separator) =
        none := by
      rw [Option.eq_none_iff_forall_ne_some]
      intro found hfound
      exact hne (List.cons.inj (dropPrefix?_eq_some.mp hfound)).1.symm
    change (match List.dropPrefix? (character :: rest ++ (head :: separator) ++ after) (head :: separator) with
      | some found => some ([], found)
      | none => (splitOnce (head :: separator) (rest ++ (head :: separator) ++ after)).map
          fun (before, after) => (character :: before, after)) = _
    rw [hnone, ih hrest]
    rfl

end

section

variable {generation : String}

section

theorem generationFor_ne_empty (network runId suffix : String) : generationFor network runId suffix ≠ "" := by
  intro heq
  have hlength := congrArg (fun text : String => text.toList.length) heq
  have hroutine : (":routine:" : String).toList.length = 9 := rfl
  have hnone : ("" : String).toList.length = 0 := rfl
  unfold generationFor at hlength
  split at hlength
  · simp only [String.toList_append, length_append] at hlength
    omega
  · simp only [String.toList_append, length_append] at hlength
    omega

variable {network run : String} {suffix : Suffix}

def Suffix.tail : Suffix → List Char
  | .own => []
  | .continuation => [':', 's', '1']
  | .verification => [':', 'v', '1']

theorem Suffix.tail_injective : Function.Injective Suffix.tail := by
  intro first second h
  cases first <;> cases second <;> first | rfl | cases h

theorem toList_name (network run : String) (suffix : Suffix) : (generationFor network run suffix.text).toList =
      network.toList ++ ":routine:".toList ++ (run.toList ++ suffix.tail) := by
  cases suffix <;> simp [generationFor, Suffix.text, Suffix.tail, String.toList_append]

/-- The network of a record's generation, as its pattern admits it. -/
def isNetwork (network : String) : Bool := isHeaded isAlnum isNetworkChar 127 network.toList

theorem isAlnum_of_isHexLower {character} (h : isHexLower character = true) : isAlnum character = true := by
  simp only [isHexLower, isAlnum, isLowerAlnum, isLowerAscii, Bool.or_eq_true, Bool.and_eq_true,
    decide_eq_true_eq] at h ⊢
  rcases h with hdigit | ⟨hleft, hright⟩
  · exact .inr (.inr hdigit)
  · exact .inr (.inl ⟨hleft, Char.le_trans hright (by decide)⟩)

theorem isNetwork_of_isHexText (h : isHexText 64 network = true) : isNetwork network = true := by
  simp only [isHexText, Bool.and_eq_true, beq_iff_eq, all_eq_true, ← String.length_toList] at h
  obtain ⟨hlength, hall⟩ := h
  unfold isNetwork
  cases hchars : network.toList with
  | nil => rw [hchars] at hlength; cases hlength
  | cons head tail =>
    rw [hchars, length_cons] at hlength
    rw [hchars] at hall
    have hwide (character : Char) (hcharacter : character ∈ head :: tail) := isAlnum_of_isHexLower (hall character hcharacter)
    simp only [isHeaded, Bool.and_eq_true, decide_eq_true_eq, all_eq_true]
    refine ⟨⟨hwide head mem_cons_self, by omega⟩, fun character hcharacter => ?_⟩
    rw [isNetworkChar, hwide character (mem_cons_of_mem _ hcharacter), Bool.true_or]

theorem colon_not_mem (h : isNetwork network = true) : ':' ∉ network.toList := by
  intro hmem
  unfold isNetwork at h
  cases hchars : network.toList with
  | nil => rw [hchars] at hmem; cases hmem
  | cons head tail =>
    rw [hchars] at h hmem
    simp only [isHeaded, Bool.and_eq_true, all_eq_true] at h
    rcases mem_cons.mp hmem with rfl | htail
    · exact absurd h.1.1 (by decide)
    · exact absurd (h.2 _ htail) (by decide)

theorem length_of_routineIdRe (h : routineIdRe run = true) : run.toList.length = 32 := by
  simp only [routineIdRe, isHexText, Bool.and_eq_true, beq_iff_eq] at h
  rw [String.length_toList, h.1]

theorem generationRun_eq_some {rest} :
    generationRun rest = some run ↔ routineIdRe run = true ∧ ∃ suffix : Suffix, rest = run.toList ++ suffix.tail := by
  simp only [generationRun, Option.ite_none_right_eq_some, Bool.and_eq_true, Bool.or_eq_true, beq_iff_eq,
    Option.some.injEq]
  constructor
  · rintro ⟨⟨hrun, hsuffix⟩, rfl⟩
    refine ⟨hrun, ?_⟩
    rw [String.toList_ofList]
    rcases hsuffix with (hown | hcontinuation) | hverification
    · exact ⟨.own, by rw [Suffix.tail, ← hown, take_append_drop]⟩
    · exact ⟨.continuation, by rw [Suffix.tail, ← hcontinuation, take_append_drop]⟩
    · exact ⟨.verification, by rw [Suffix.tail, ← hverification, take_append_drop]⟩
  · rintro ⟨hrun, suffix, rfl⟩
    rw [take_left' (length_of_routineIdRe hrun), drop_left' (length_of_routineIdRe hrun), String.ofList_toList]
    refine ⟨⟨hrun, ?_⟩, rfl⟩
    cases suffix <;> simp [Suffix.tail]

/-- The record's pattern takes exactly the names apart, into what they were built from. -/
theorem generationParts_eq_some : generationParts generation = some (network, run) ↔
      isNetwork network = true ∧ routineIdRe run = true ∧
        ∃ suffix : Suffix, generation = generationFor network run suffix.text := by
  simp only [generationParts, Option.ite_none_right_eq_some, Bool.and_eq_true, beq_iff_eq, Option.map_eq_some_iff,
    generationRun_eq_some, Prod.mk.injEq]
  constructor
  · rintro ⟨⟨hnetwork, hseparator⟩, _, ⟨hrun, suffix, hrest⟩, rfl, rfl⟩
    refine ⟨by rwa [isNetwork, String.toList_ofList], hrun, suffix, String.toList_injective ?_⟩
    rw [toList_name, String.toList_ofList, ← hseparator, ← hrest, append_assoc, take_append_drop,
      takeWhile_append_dropWhile]
  · rintro ⟨hnetwork, hrun, suffix, rfl⟩
    have hcolon (character : Char) (h : character ∈ network.toList) : (character != ':') = true := by
      rw [bne_iff_ne]
      rintro rfl
      exact colon_not_mem hnetwork h
    have hrest : ":routine:".toList = ':' :: "routine:".toList := rfl
    rw [toList_name, append_assoc, takeWhile_append_of_pos hcolon, dropWhile_append_of_pos hcolon,
      hrest, cons_append, takeWhile_cons_of_neg (by simp), dropWhile_cons_of_neg (by simp),
      append_nil, ← cons_append, ← hrest]
    exact ⟨⟨hnetwork, take_left' rfl⟩, run, ⟨hrun, suffix, drop_left' rfl⟩, String.ofList_toList, rfl⟩

theorem networkOf_eq_some_iff :
    networkOf generation run = some network ↔ generationParts generation = some (network, run) := by
  unfold networkOf
  constructor
  · intro h
    obtain ⟨⟨found, owner⟩, hparts, h⟩ := Option.bind_eq_some_iff.mp h
    obtain ⟨howner, h⟩ := Option.ite_none_right_eq_some.mp h
    cases h
    rw [hparts, beq_iff_eq.mp howner]
  · intro h
    simp [h]

theorem name_inj {other owner ending} (hnetwork : isNetwork network = true)
    (hother : isNetwork other = true) (hrun : routineIdRe run = true) (howner : routineIdRe owner = true)
    (h : generationFor network run suffix.text = generationFor other owner ending.text) :
    network = other ∧ run = owner ∧ suffix = ending := by
  have hfirst := generationParts_eq_some.mpr ⟨hnetwork, hrun, suffix, rfl⟩
  have hsecond := generationParts_eq_some.mpr ⟨hother, howner, ending, rfl⟩
  rw [h, hsecond] at hfirst
  cases hfirst
  have htext := congrArg String.toList h
  rw [toList_name, toList_name, append_cancel_left_eq, append_cancel_left_eq] at htext
  exact ⟨rfl, rfl, Suffix.tail_injective htext⟩

theorem generationFor_ne_continuation {other} (h : networkOf (generationFor network run "") run = some network) :
    generationFor network run "" ≠ generationFor other run "s1" := by
  intro heq
  have hcolon := colon_not_mem (generationParts_eq_some.mp (networkOf_eq_some_iff.mp h)).1
  have htext := congrArg String.toList heq
  rw [show "" = Suffix.own.text from rfl, show "s1" = Suffix.continuation.text from rfl, toList_name, toList_name,
    append_assoc, append_assoc] at htext
  -- The network of the own name is longer, so it holds the separator of the other.
  rcases append_eq_append_iff.mp htext with ⟨rest, hother, hrest⟩ | ⟨rest, hnetwork, hrest⟩
  · have hlength := congrArg List.length hrest
    simp only [Suffix.tail, length_append, length_cons, length_nil] at hlength
    omega
  · cases rest with
    | nil => simp [Suffix.tail] at hrest
    | cons first rest =>
      obtain rfl : ':' = first := (List.cons.inj hrest).1
      exact hcolon (by rw [hnetwork]; simp)

/-- The store's codec admits no generation yet, and the run's own and continuation names. -/
theorem generationOf_iff : generationOf run generation = true ↔
      generation = "" ∨ ∃ network, isHexText 64 network = true ∧ ∃ suffix : Suffix, suffix ≠ .verification ∧
        generation = generationFor network run suffix.text := by
  unfold generationOf
  by_cases hempty : generation = ""
  · simp [hempty]
  rw [if_neg (by simpa using hempty), or_iff_right hempty]
  constructor
  · intro h
    split at h
    · cases h
    next before rest hsplit =>
    simp only [Bool.and_eq_true, Bool.or_eq_true, beq_iff_eq, dropSuffix?_eq_some_iff] at h
    obtain ⟨hnetwork, howned⟩ := h
    have hname := append_of_splitOnce hsplit
    refine ⟨_, hnetwork, ?_⟩
    rcases howned with rfl | ⟨ending, rfl, hending⟩
    · refine ⟨.own, by decide, String.toList_injective ?_⟩
      rw [hname, toList_name, String.toList_ofList (l := before), Suffix.tail, append_nil]
    · refine ⟨.continuation, by decide, String.toList_injective ?_⟩
      rw [hname, toList_name, String.toList_ofList (l := before), hending]
      rfl
  · rintro ⟨network, hnetwork, suffix, hsuffix, rfl⟩
    have hsplit : splitOnce ":routine:".toList (generationFor network run suffix.text).toList =
        some (network.toList, run.toList ++ suffix.tail) := by
      rw [toList_name]
      exact splitOnce_append (colon_not_mem (isNetwork_of_isHexText hnetwork))
    rw [hsplit]
    simp only [String.ofList_toList, hnetwork, Bool.true_and, Bool.or_eq_true, beq_iff_eq, dropSuffix?_eq_some_iff]
    cases suffix with
    | own => exact .inl (append_nil _)
    | continuation => exact .inr ⟨_, rfl, rfl⟩
    | verification => exact absurd rfl hsuffix

theorem completed_eq_done {value} : completed value = "done" ↔ routineIdRe value.runId = true ∧
      ∃ network, isNetwork network = true ∧ value.generation = generationFor network value.runId Suffix.own.text := by
  have hmark : completed value = "done" ↔ ∃ network, networkOf value.generation value.runId = some network ∧
      generationFor network value.runId "" = value.generation := by
    rw [← Option.map_eq_some_iff, completed]
    split
    · next hown => simpa using hown
    · next hown => simpa using hown
  simp only [hmark, networkOf_eq_some_iff, generationParts_eq_some]
  constructor
  · rintro ⟨network, ⟨hnetwork, hrun, -⟩, hname⟩
    exact ⟨hrun, network, hnetwork, hname.symm⟩
  · rintro ⟨hrun, network, hnetwork, hname⟩
    exact ⟨network, ⟨hnetwork, hrun, .own, hname⟩, hname.symm⟩

end

/-- A generation's name is written for no other network, run or suffix; the record's pattern gives back its network
and its run, and admits nothing else; the store's codec admits for a run no generation yet and its own and its
continuation's names; and a completed run is done exactly when its generation is its own unsuffixed name. -/
theorem generation_names_identify :
    Function.Injective (fun generation : Generation => generation.name) ∧
    (∀ generation : Generation,
      generationParts generation.name = some (generation.network, generation.run) ∧
      ∀ run, networkOf generation.name run = if run = generation.run then some generation.network else none) ∧
    (∀ name network run, generationParts name = some (network, run) ↔
      isNetwork network = true ∧ routineIdRe run = true ∧
        ∃ suffix : Suffix, name = generationFor network run suffix.text) ∧
    (∀ (generation : Generation) (name : String), generationOf generation.run name = true ↔
      name = "" ∨ ∃ found : Generation, found.name = name ∧ found.run = generation.run ∧
        found.suffix ≠ .verification) ∧
    (∀ value : Run, completed value = "done" ↔ routineIdRe value.runId = true ∧
      ∃ network, isNetwork network = true ∧ value.generation = generationFor network value.runId Suffix.own.text) := by
  refine ⟨?_, ?_, fun _ _ _ => generationParts_eq_some, ?_, fun _ => completed_eq_done⟩
  · rintro ⟨network, run, suffix, hnetwork, hrun⟩ ⟨other, owner, ending, hother, howner⟩ h
    obtain ⟨rfl, rfl, rfl⟩ := name_inj (isNetwork_of_isHexText hnetwork) (isNetwork_of_isHexText hother) hrun howner h
    rfl
  · rintro ⟨network, run, suffix, hnetwork, hrun⟩
    have hparts : generationParts (generationFor network run suffix.text) = some (network, run) :=
      generationParts_eq_some.mpr ⟨isNetwork_of_isHexText hnetwork, hrun, suffix, rfl⟩
    refine ⟨hparts, fun other => ?_⟩
    change (generationParts (generationFor network run suffix.text)).bind _ = _
    rw [hparts, Option.bind_some]
    exact if_congr (beq_iff_eq.trans eq_comm) rfl rfl
  · rintro ⟨network, run, suffix, hnetwork, hrun⟩ name
    rw [generationOf_iff]
    refine or_congr_right ⟨?_, ?_⟩
    · rintro ⟨found, hfound, ending, hending, rfl⟩
      exact ⟨⟨found, run, ending, hfound, hrun⟩, rfl, rfl, hending⟩
    · rintro ⟨⟨found, owner, ending, hfound, howner⟩, rfl, rfl, hending⟩
      exact ⟨found, hfound, ending, hending, rfl⟩

end

open Library

variable {calls : List Call} {call : Call} {runId generation token network : String}
  {value updated : Run} {discards : List (String × String)} {now : Int} {minted : List String}

section

variable [Platform]

def reopenings (calls : List Call) : List (String × String) :=
  (applied apply {} calls).filterMap fun item => item.2.reopens

def reopenedIds (calls : List Call) : List String := (reopenings calls).map Prod.fst

structure ReopenedOnce (calls : List Call) : Prop where
  once : (reopenedIds calls).Nodup
  continued : ∀ item ∈ reopenings calls, ∃ network, item.2 = generationFor network item.1 "s1"

theorem reopenings_snoc_ok {next} (h : apply (after calls) call = .ok next) :
    reopenings (calls ++ [call]) = reopenings calls ++ call.reopens.toList := by
  unfold reopenings
  rw [applied_snoc_ok h, filterMap_append]
  cases hreopens : call.reopens <;> simp [hreopens]

theorem reopenings_snoc_error {refusal} (h : apply (after calls) call = .error refusal) :
    reopenings (calls ++ [call]) = reopenings calls := by
  unfold reopenings
  rw [applied_snoc_error h]

theorem ReopenedOnce.cut (h : ReopenedOnce (calls ++ [call])) : ReopenedOnce calls := by
  cases happly : apply (after calls) call with
  | ok next =>
    have hsnoc := reopenings_snoc_ok happly
    obtain ⟨honce, hcontinued⟩ := h
    unfold reopenedIds at honce
    rw [hsnoc, map_append] at honce
    refine ⟨(nodup_append.mp honce).1, fun item hitem => hcontinued item ?_⟩
    rw [hsnoc]
    exact mem_append_left _ hitem
  | error refusal =>
    have hsnoc := reopenings_snoc_error happly
    obtain ⟨honce, hcontinued⟩ := h
    unfold reopenedIds at honce
    rw [hsnoc] at honce hcontinued
    exact ⟨honce, hcontinued⟩

theorem ReopenedOnce.last {next} (h : ReopenedOnce (calls ++ [call]))
    (happly : apply (after calls) call = .ok next) (hreopens : call.reopens = some (runId, generation)) :
    runId ∉ reopenedIds calls ∧ ∃ network, generation = generationFor network runId "s1" := by
  have hsnoc := reopenings_snoc_ok happly
  rw [hreopens] at hsnoc
  obtain ⟨honce, hcontinued⟩ := h
  unfold reopenedIds at honce
  rw [hsnoc, map_append] at honce
  rw [hsnoc] at hcontinued
  refine ⟨fun hmem => ?_, hcontinued (runId, generation) (by simp)⟩
  exact (nodup_append.mp honce).2.2 runId hmem runId (by simp) rfl

end

/-- What is known of a run record and of the removals queued for it. -/
structure Tracked (reopened : List String) (discards : List (String × String)) (value : Run) :
    Prop where
  first : value.runId ∉ reopened → value.generation = "" ∨
    ∃ network, value.generation = generationFor network value.runId "" ∧
      networkOf value.generation value.runId = some network
  second : value.runId ∈ reopened → ∃ network,
    value.generation = generationFor network value.runId "s1"
  bound : value.status ≠ .leased → value.status ≠ .frozen → value.generation ≠ ""
  original : value.runId ∉ reopened → value.status.live = true → ∀ generation,
    (value.runId, generation) ∉ discards
  archived : value.runId ∉ reopened → ∀ generation, (value.runId, generation) ∈ discards →
    generation = value.generation
  continued : value.runId ∈ reopened → value.status.live = true → (value.runId, value.generation) ∉ discards

/-- How many removals a run record may still queue. -/
def unqueued (reopened : List String) (discards : List (String × String)) (value : Run) : Nat :=
  if value.status.live then if value.runId ∈ reopened then 1 else 2
  else if value.status = .unresolved ∧ value.runId ∉ reopened then
    if (value.runId, value.generation) ∈ discards then 1 else 2
  else 0

/-- The removals queued and those still to come. -/
def pending (reopened : List String) (discards : List (String × String)) (runs : List Run) : Nat :=
  discards.length + (runs.map (unqueued reopened discards)).sum

section

variable {reopened reopened' : List String} {discards discards' : List (String × String)} {value updated : Run}

/-- A run that a call does not touch, with no more queued for it, stays tracked. -/
theorem Tracked.untouched (h : Tracked reopened discards value)
    (hreopened : value.runId ∈ reopened' ↔ value.runId ∈ reopened)
    (hdiscards : ∀ generation, (value.runId, generation) ∈ discards' →
      (value.runId, generation) ∈ discards) : Tracked reopened' discards' value := by
  refine ⟨fun hnot => h.first (mt hreopened.mpr hnot), fun hmem => h.second (hreopened.mp hmem), h.bound, ?_, ?_, ?_⟩
  · intro hnot hlive generation hqueued
    exact h.original (mt hreopened.mpr hnot) hlive generation (hdiscards generation hqueued)
  · intro hnot generation hqueued
    exact h.archived (mt hreopened.mpr hnot) generation (hdiscards generation hqueued)
  · intro hmem hlive hqueued
    exact h.continued (hreopened.mp hmem) hlive (hdiscards _ hqueued)

theorem Tracked.edit (h : Tracked reopened discards value) (hid : updated.runId = value.runId)
    (hgeneration : updated.generation = value.generation)
    (hlive : updated.status.live = true → value.status.live = true)
    (hbound : updated.status ≠ .leased → updated.status ≠ .frozen → value.generation ≠ "") :
    Tracked reopened discards updated := by
  refine ⟨?_, ?_, ?_, ?_, ?_, ?_⟩
  · rw [hid, hgeneration]
    exact h.first
  · rw [hid, hgeneration]
    exact h.second
  · rw [hgeneration]
    exact hbound
  · rw [hid]
    exact fun hnot hupdated => h.original hnot (hlive hupdated)
  · rw [hid, hgeneration]
    exact h.archived
  · rw [hid, hgeneration]
    exact fun hmem hupdated => h.continued hmem (hlive hupdated)

/-- A live run's current generation waits for no removal yet. -/
theorem Tracked.unqueued_generation (h : Tracked reopened discards value)
    (hlive : value.status.live = true) : (value.runId, value.generation) ∉ discards := by
  by_cases hmem : value.runId ∈ reopened
  · exact h.continued hmem hlive
  · exact h.original hmem hlive value.generation

theorem Tracked.queue (h : Tracked reopened discards value) (hlive : value.status.live = true)
    (hid : updated.runId = value.runId) (hgeneration : updated.generation = value.generation)
    (hstopped : updated.status.live = false) (hbound : value.generation ≠ "") :
    Tracked reopened (discards ++ [(value.runId, value.generation)]) updated := by
  refine ⟨?_, ?_, fun _ _ => hgeneration ▸ hbound, ?_, ?_, ?_⟩
  · rw [hid, hgeneration]
    exact h.first
  · rw [hid, hgeneration]
    exact h.second
  · intro _ hupdated
    rw [hstopped] at hupdated
    cases hupdated
  · rw [hid, hgeneration]
    intro hnot generation hqueued
    rcases mem_append.mp hqueued with hbefore | hnew
    · exact absurd hbefore (h.original hnot hlive generation)
    · exact (Prod.mk.inj (mem_singleton.mp hnew)).2
  · intro _ hupdated
    rw [hstopped] at hupdated
    cases hupdated

theorem unqueued_pos (hlive : value.status.live = true) : 1 ≤ unqueued reopened discards value := by
  unfold unqueued
  rw [if_pos hlive]
  split <;> omega

theorem unqueued_untouched (hreopened : value.runId ∈ reopened' ↔ value.runId ∈ reopened)
    (hdiscards : (value.runId, value.generation) ∈ discards' ↔ (value.runId, value.generation) ∈ discards) :
    unqueued reopened' discards' value = unqueued reopened discards value := by
  simp only [unqueued, hreopened, hdiscards]

theorem unqueued_of_live (hlive : value.status.live = true) :
    unqueued reopened discards value = if value.runId ∈ reopened then 1 else 2 := by
  rw [unqueued, if_pos hlive]

theorem unqueued_of_live_eq (hid : updated.runId = value.runId) (hlive : value.status.live = true)
    (hupdated : updated.status.live = true) :
    unqueued reopened discards updated = unqueued reopened discards value := by
  rw [unqueued_of_live hlive, unqueued_of_live hupdated, hid]

theorem unqueued_of_queued (hstopped : value.status.live = false)
    (hqueued : (value.runId, value.generation) ∈ discards) :
    unqueued reopened discards value + 1 ≤ if value.runId ∈ reopened then 1 else 2 := by
  rw [unqueued, hstopped, if_neg Bool.false_ne_true, if_pos hqueued]
  by_cases hmem : value.runId ∈ reopened
  · rw [if_neg (fun h => h.2 hmem), if_pos hmem]
  · rw [if_neg hmem]
    split <;> omega

theorem unqueued_le_two (value : Run) : unqueued reopened discards value ≤ 2 := by
  unfold unqueued
  split
  · split <;> omega
  · split
    · split <;> omega
    · omega

theorem unqueued_of_not_occupies (h : value.occupies = false) : unqueued reopened discards value = 0 := by
  simp only [Run.occupies, Bool.or_eq_false_iff, beq_eq_false_iff_ne] at h
  simp [unqueued, h.1, h.2]

theorem sum_unqueued_le (runs : List Run) :
    (runs.map (unqueued reopened discards)).sum ≤ 2 * (runs.filter Run.occupies).length := by
  refine sum_le_filter (fun item _ => unqueued_le_two item) fun item _ hfree => ?_
  exact unqueued_of_not_occupies hfree

end

variable {held : String × String}

section

variable {state next : TeamRoutines} {call : Call} {reopened : List String}

theorem Tracked.bind {networkId} (h : Tracked reopened discards value) (hstatus : value.status = .leased)
    (hnetwork : networkOf (boundGeneration value networkId) value.runId = some networkId) :
    Tracked reopened discards (boundForm value networkId now) := by
  have hlive : value.status.live = true := by
    rw [hstatus]
    rfl
  cases hempty : value.generation.isEmpty with
  | false =>
    have hsame : boundGeneration value networkId = value.generation := by
      simp [boundGeneration, hempty]
    exact h.edit rfl hsame (fun _ => hlive) fun hnot => absurd hstatus hnot
  | true =>
    have hbound : boundGeneration value networkId = generationFor networkId value.runId "" := by
      simp [boundGeneration, hempty]
    have hnone : value.generation = "" := String.isEmpty_iff.mp hempty
    have hfirst : value.runId ∉ reopened := by
      intro hmem
      obtain ⟨network, hcontinued⟩ := h.second hmem
      exact generationFor_ne_empty network value.runId "s1" (hcontinued.symm.trans hnone)
    refine ⟨fun _ => .inr ⟨networkId, hbound, hnetwork⟩, fun hmem => absurd hmem hfirst,
      fun hnot => absurd hstatus hnot, fun _ _ => h.original hfirst hlive, ?_,
      fun hmem => absurd hmem hfirst⟩
    intro _ generation hqueued
    exact absurd hqueued (h.original hfirst hlive generation)

/-- What the calls so far leave queued: distinct removals, at most 23 counting those still to come,
and every run record tracked. -/
structure Discarding (minted reopened : List String) (state : TeamRoutines) : Prop where
  known : ∀ id ∈ reopened, id ∈ minted
  tracked : ∀ item ∈ state.runs, Tracked reopened state.discards item
  distinct : state.discards.Nodup
  bound : pending reopened state.discards state.runs ≤ 23

theorem discarding_empty : Discarding [] [] {} where
  known := fun _ hid => nomatch hid
  tracked := fun _ hitem => nomatch hitem
  distinct := nodup_nil
  bound := Nat.zero_le _

theorem nodup_queue (hdistinct : discards.Nodup) (hnew : held ∉ discards) : (discards ++ [held]).Nodup := by
  refine nodup_append.mpr ⟨hdistinct, nodup_singleton held, ?_⟩
  rintro other hother new hheld rfl
  exact hnew (mem_singleton.mp hheld ▸ hother)

section

variable (hminted : Minted minted state) (h : Discarding minted reopened state)
  (hrun : run state value.runId = .ok value) (hid : updated.runId = value.runId)
  (hruns : next.runs = replaceFirst Run.runId updated state.runs)

include hminted h hrun hid hruns

/-- One run replaced: the others stay as they were, so only what this one queues counts. -/
theorem Discarding.replaced {reopened'} (hknown : ∀ id ∈ reopened', id ∈ reopened ∨ id = value.runId)
    (hreopened : ∀ id, id ≠ value.runId → (id ∈ reopened' ↔ id ∈ reopened))
    (hqueued : ∀ held : String × String, held.1 ≠ value.runId → (held ∈ next.discards ↔ held ∈ state.discards))
    (htracked : Tracked reopened' next.discards updated) (hdistinct : next.discards.Nodup)
    (hless : next.discards.length + unqueued reopened' next.discards updated ≤
      state.discards.length + unqueued reopened state.discards value) : Discarding minted reopened' next := by
  have hfind := run_eq_ok.mp hrun
  rw [← hid] at hfind
  refine ⟨fun id hmem => ?_, fun item hitem => ?_, hdistinct, ?_⟩
  · rcases hknown id hmem with hbefore | rfl
    · exact h.known id hbefore
    · exact hminted.runs value (run_mem hrun).1
  · rw [hruns] at hitem
    rcases (mem_replaceFirst hminted.distinct).mp hitem with ⟨rfl, -⟩ | ⟨hbefore, hne⟩
    · exact htracked
    · rw [hid] at hne
      refine (h.tracked item hbefore).untouched (hreopened _ hne) fun generation hmem => ?_
      exact (hqueued (item.runId, generation) hne).mp hmem
  · have hsum := sum_replaceFirst_of (unqueued reopened state.discards)
      (unqueued reopened' next.discards) hminted.distinct hfind fun item _ hne =>
        unqueued_untouched (hreopened _ (hid ▸ hne)) (hqueued (item.runId, item.generation) (hid ▸ hne))
    have hbound := h.bound
    unfold pending at hbound ⊢
    rw [hruns]
    omega

theorem Discarding.stopped (hlive : value.status.live = true) (hbound : value.generation ≠ "")
    (hdiscards : next.discards = state.discards ++ [(value.runId, value.generation)])
    (hgeneration : updated.generation = value.generation) (hstopped : updated.status.live = false) : Discarding minted reopened next := by
  have htracked := h.tracked value (run_mem hrun).1
  refine h.replaced hminted hrun hid hruns (fun _ => .inl) (fun _ _ => Iff.rfl) ?_ ?_ ?_ ?_
  · intro held hne
    rw [hdiscards]
    simp [Prod.ext_iff, hne]
  · rw [hdiscards]
    exact htracked.queue hlive hid hgeneration hstopped hbound
  · rw [hdiscards]
    exact nodup_queue h.distinct (htracked.unqueued_generation hlive)
  · have hmem : (updated.runId, updated.generation) ∈ next.discards := by
      rw [hdiscards, hid, hgeneration]
      exact mem_append_right _ (mem_singleton.mpr rfl)
    have hleft : unqueued reopened next.discards updated + 1 ≤
        if updated.runId ∈ reopened then 1 else 2 := unqueued_of_queued hstopped hmem
    have hlength : next.discards.length = state.discards.length + 1 := by
      rw [hdiscards, length_append, length_singleton]
    rw [hid] at hleft
    rw [unqueued_of_live hlive]
    omega

end

/-- A removal that is done lets one run at most queue it again. -/
theorem unqueued_erase_le (item : Run) :
    unqueued reopened (discards.erase held) item ≤ unqueued reopened discards item + 1 := by
  unfold unqueued
  split
  · omega
  · split
    · split <;> split <;> omega
    · omega

theorem Discarding.discarded (hminted : Minted minted state) (h : Discarding minted reopened state)
    (hruns : next.runs = state.runs) (hdiscards : next.discards =
      state.discards.filter fun held => !(held.1 == runId && held.2 == generation)) :
    Discarding minted reopened next := by
  have herase : next.discards = state.discards.erase (runId, generation) := by
    rw [hdiscards, h.distinct.erase_eq_filter]
    exact filter_congr fun held _ => rfl
  have hbound := h.bound
  refine ⟨h.known, fun item hitem => ?_, herase ▸ h.distinct.erase _, ?_⟩
  · rw [hruns] at hitem
    refine (h.tracked item hitem).untouched Iff.rfl fun _ hqueued => ?_
    rw [herase] at hqueued
    exact mem_of_mem_erase hqueued
  · unfold pending at hbound ⊢
    rw [hruns, herase]
    by_cases hmem : (runId, generation) ∈ state.discards
    · have hlength := length_erase_add_one hmem
      have hsum : (state.runs.map (unqueued reopened (state.discards.erase (runId, generation)))).sum ≤
          (state.runs.map (unqueued reopened state.discards)).sum + 1 := by
        refine sum_le_succ hminted.distinct (fun item _ (hne : item.runId ≠ runId) => ?_)
          fun item _ => unqueued_erase_le item
        have hother : (item.runId, item.generation) ≠ (runId, generation) := fun heq =>
          hne (Prod.mk.inj heq).1
        exact (unqueued_untouched Iff.rfl (mem_erase_of_ne hother)).le
      omega
    · rw [erase_of_not_mem hmem]
      exact hbound

theorem Discarding.removed (hminted : Minted minted state) (h : Discarding minted reopened state)
    (hrun : run state value.runId = .ok value)
    (hruns : next.runs = state.runs.filter fun item => item.runId != value.runId)
    (hqueued : ∀ held : String × String, held.1 ≠ value.runId →
      (held ∈ next.discards ↔ held ∈ state.discards)) (hdistinct : next.discards.Nodup)
    (hless : next.discards.length ≤ state.discards.length + unqueued reopened state.discards value) :
    Discarding minted reopened next := by
  have hothers : ∀ item ∈ next.runs, item ∈ state.runs ∧ item.runId ≠ value.runId := by
    rw [hruns]
    intro item hitem
    exact ⟨(mem_filter.mp hitem).1, by simpa using (mem_filter.mp hitem).2⟩
  refine ⟨h.known, fun item hitem => ?_, hdistinct, ?_⟩
  · obtain ⟨hbefore, hne⟩ := hothers item hitem
    exact (h.tracked item hbefore).untouched Iff.rfl fun generation =>
      (hqueued (item.runId, generation) hne).mp
  · have hsame : next.runs.map (unqueued reopened next.discards) =
        next.runs.map (unqueued reopened state.discards) := by
      refine map_congr_left fun item hitem => unqueued_untouched Iff.rfl ?_
      exact hqueued (item.runId, item.generation) (hothers item hitem).2
    have hsum := sum_remove (unqueued reopened state.discards) hminted.distinct (run_mem hrun).1
    have hbound := h.bound
    unfold pending at hbound ⊢
    rw [← hruns] at hsum
    rw [hsame]
    omega

theorem Discarding.mono {minted'} (h : Discarding minted reopened state)
    (hsubset : minted ⊆ minted') : Discarding minted' reopened state :=
  ⟨fun id hid => hsubset (h.known id hid), h.tracked, h.distinct, h.bound⟩

variable [Platform]

theorem RunEdit.reopens (h : RunEdit call value updated) : call.reopens = none := by
  cases h <;> rfl

/-- An unresolved run reopened as its first continuation stays tracked: its own generation is the
only one queued for it, and that is no continuation. -/
theorem Tracked.reopen {reopened' discards'}
    (h : Tracked reopened discards value) (hstatus : value.status = .unresolved)
    (hnot : value.runId ∉ reopened) (hreopened : value.runId ∈ reopened')
    (hgeneration : generation = generationFor network value.runId "s1")
    (hdiscards : ∀ held ∈ discards', held ∈ discards ∨ held = (value.runId, value.generation)) :
    Tracked reopened' discards' (reopenedForm value token now generation) := by
  have hbound : value.generation ≠ "" := h.bound (by rw [hstatus]; decide) (by rw [hstatus]; decide)
  refine ⟨fun hfirst => absurd hreopened hfirst, fun _ => ⟨network, hgeneration⟩,
    fun hleased => absurd rfl hleased, fun hfirst => absurd hreopened hfirst,
    fun hfirst => absurd hreopened hfirst, fun _ _ hqueued => ?_⟩
  have hown : generation = value.generation := by
    rcases hdiscards _ hqueued with hbefore | hnew
    · exact h.archived hnot generation hbefore
    · exact (Prod.mk.inj hnew).2
  obtain hempty | ⟨own, hvalue, hnetwork⟩ := h.first hnot
  · exact hbound hempty
  · rw [hvalue] at hnetwork
    exact generationFor_ne_continuation hnetwork (hvalue.symm.trans (hown.symm.trans hgeneration))

theorem RunEdit.tracked (h : RunEdit call value updated)
    (htracked : Tracked reopened discards value) : Tracked reopened discards updated := by
  cases h with
  | bound hdrives _ hnetwork => exact htracked.bind hdrives.status hnetwork
  | spent | unprotected | incidentSpent | paused => exact htracked.edit rfl rfl id htracked.bound
  | frozen hdrives =>
    exact htracked.edit rfl rfl (fun _ => by rw [hdrives.status]; rfl) fun _ hnot => absurd rfl hnot
  | thawed hstatus =>
    exact htracked.edit rfl rfl (fun _ => by rw [hstatus]; rfl) fun hnot => absurd rfl hnot
  | fenced hdrives hgeneration =>
    exact htracked.edit rfl rfl (fun _ => by rw [hdrives.status]; rfl) fun _ _ => hgeneration
  | recovered hstatus hgeneration =>
    exact htracked.edit rfl rfl (fun _ => by rw [hstatus]; rfl) fun _ _ => hgeneration
  | skipped hstatus | rerun hstatus =>
    refine htracked.edit rfl rfl nofun fun _ _ => htracked.bound ?_ ?_ <;> rw [hstatus] <;> decide

theorem RunEdit.unqueued_le (h : RunEdit call value updated) :
    unqueued reopened discards updated ≤ unqueued reopened discards value := by
  cases h with
  | bound hdrives =>
    have hlive : value.status.live = true := by rw [hdrives.status]; rfl
    refine (unqueued_of_live_eq ?_ hlive ?_).le
    · rfl
    · exact hlive
  | frozen hdrives | fenced hdrives =>
    have hlive : value.status.live = true := by rw [hdrives.status]; rfl
    exact (unqueued_of_live_eq (by rfl) hlive (by rfl)).le
  | spent | unprotected | incidentSpent | paused => exact le_rfl
  | thawed hstatus | recovered hstatus =>
    have hlive : value.status.live = true := by rw [hstatus]; rfl
    exact (unqueued_of_live_eq (by rfl) hlive (by rfl)).le
  | skipped | rerun =>
    rw [unqueued_of_not_occupies rfl]
    exact Nat.zero_le _

/-- A started run: fewer than eight removals wait, and each of the at most eight runs may queue
two. -/
theorem Discarding.started {due keyFingerprint id} (hexclusive : Exclusive next) (hminted : Minted minted state)
    (h : Discarding minted reopened state) (hfresh : id ∉ minted) (hroom : state.discards.length < maxRoutines)
    (hruns : next.runs = state.runs ++ [leasedForm id token due now keyFingerprint])
    (hdiscards : next.discards = state.discards) : Discarding minted reopened next := by
  have hnone : ∀ generation, (id, generation) ∉ next.discards := by
    rw [hdiscards]
    exact fun generation hqueued => hfresh (hminted.discards (id, generation) hqueued)
  have hnot : id ∉ reopened := fun hmem => hfresh (h.known id hmem)
  refine ⟨h.known, fun item hitem => ?_, hdiscards ▸ h.distinct, ?_⟩
  · rw [hruns] at hitem
    rcases mem_append.mp hitem with hbefore | hnew
    · rw [hdiscards]
      exact h.tracked item hbefore
    · rw [mem_singleton.mp hnew]
      refine ⟨fun _ => .inl rfl, fun hmem => absurd hmem hnot, fun hleased => absurd rfl hleased,
        fun _ _ => hnone, fun _ generation hqueued => absurd hqueued (hnone generation),
        fun hmem => absurd hmem hnot⟩
  · have hsum : (next.runs.map (unqueued reopened next.discards)).sum ≤
        2 * (next.runs.filter Run.occupies).length := sum_unqueued_le next.runs
    have hoccupied := hexclusive.occupied
    unfold pending
    rw [hdiscards] at hsum ⊢
    unfold maxRoutines at hroom hoccupied
    omega

/-- An unresolved run reopened for the first time: its own generation is queued by now, and only
its continuation may follow. -/
theorem Discarding.continued (hminted : Minted minted state) (h : Discarding minted reopened state)
    (hrun : run state value.runId = .ok value) (hstatus : value.status = .unresolved)
    (hnot : value.runId ∉ reopened) (hgeneration : generation = generationFor network value.runId "s1")
    (hruns : next.runs = replaceFirst Run.runId (reopenedForm value token now generation) state.runs)
    (hdiscards : next.discards = if state.discards.contains (value.runId, value.generation) then
      state.discards else state.discards ++ [(value.runId, value.generation)]) :
    Discarding minted (reopened ++ [value.runId]) next := by
  have hlive : (reopenedForm value token now generation).status.live = true := rfl
  have hid : (reopenedForm value token now generation).runId = value.runId := rfl
  have hmem : value.runId ∈ reopened ++ [value.runId] := by simp
  have hunqueued : unqueued (reopened ++ [value.runId]) next.discards
      (reopenedForm value token now generation) = 1 := by
    rw [unqueued_of_live hlive, hid, if_pos hmem]
  have hstopped : value.status.live = false := by
    rw [hstatus]
    rfl
  have hvalue : unqueued reopened state.discards value =
      if (value.runId, value.generation) ∈ state.discards then 1 else 2 := by
    rw [unqueued, hstopped, if_neg Bool.false_ne_true, if_pos ⟨hstatus, hnot⟩]
  have hqueued : ∀ held ∈ next.discards, held ∈ state.discards ∨
      held = (value.runId, value.generation) := by
    rw [hdiscards]
    intro held hheld
    split at hheld
    · exact .inl hheld
    · simpa using hheld
  refine h.replaced hminted hrun hid hruns (by simp) (by simp +contextual) ?_
    ((h.tracked value (run_mem hrun).1).reopen hstatus hnot hmem hgeneration hqueued) ?_ ?_
  · intro held hne
    refine ⟨fun hheld => (hqueued held hheld).resolve_right fun heq => hne (heq ▸ rfl), ?_⟩
    rw [hdiscards]
    intro hheld
    split
    · exact hheld
    · exact mem_append_left _ hheld
  · rw [hdiscards]
    split
    · exact h.distinct
    · next hnew => exact nodup_queue h.distinct (by simpa using hnew)
  · rw [hunqueued, hvalue, hdiscards]
    by_cases hheld : (value.runId, value.generation) ∈ state.discards
    · simp [hheld]
    · simp [hheld]

/-- Every applied call that reopens nothing keeps the queue bounded. -/
theorem discarding_of_change (hexclusive : Exclusive next) (hminted : Minted minted state)
    (h : Discarding minted reopened state) (hfresh : ∀ id, call.mintedId = some id → id ∉ minted)
    (hreopens : call.reopens = none) (hchange : RunsChange state call next.runs next.discards) :
    Discarding minted reopened next := by
  generalize hruns : next.runs = runs at hchange
  generalize hdiscards : next.discards = discards at hchange
  cases hchange with
  | kept =>
    refine ⟨h.known, ?_, hdiscards ▸ h.distinct, ?_⟩
    · rw [hruns, hdiscards]
      exact h.tracked
    · rw [hruns, hdiscards]
      exact h.bound
  | discarded => exact h.discarded hminted hruns hdiscards
  | started _ _ _ hstartable _ hid =>
    exact h.started hexclusive hminted (hfresh _ (mintedId_of_newId hid)) hstartable.discards hruns
      hdiscards
  | @edited _ value updated hrun hedit =>
    refine h.replaced hminted hrun hedit.runId hruns (fun _ => .inl) (fun _ _ => Iff.rfl)
      (fun _ _ => by rw [hdiscards]) ?_ (hdiscards ▸ h.distinct) ?_
    · rw [hdiscards]
      exact hedit.tracked (h.tracked value (run_mem hrun).1)
    · rw [hdiscards]
      exact Nat.add_le_add_left hedit.unqueued_le _
  | @indexed value _ _ _ hrun hstatus | @setAside value _ _ _ hrun hstatus =>
    have hlive : value.status.live = true := by rw [hstatus]; rfl
    have hbound : value.generation ≠ "" :=
      (h.tracked value (run_mem hrun).1).bound (by rw [hstatus]; decide) (by rw [hstatus]; decide)
    exact h.stopped hminted hrun (by rfl) hruns hlive hbound hdiscards rfl rfl
  | reopened => cases hreopens
  | @ended _ value _ hrun hstatus =>
    have hlive : value.status.live = true := by
      rcases hstatus with hstatus | hstatus <;> rw [hstatus] <;> rfl
    have hnew := (h.tracked value (run_mem hrun).1).unqueued_generation hlive
    refine h.removed hminted hrun hruns ?_ (hdiscards ▸ nodup_queue h.distinct hnew) ?_
    · intro held hne
      rw [hdiscards]
      simp [Prod.ext_iff, hne]
    · rw [hdiscards, length_append, length_singleton]
      exact Nat.add_le_add_left (unqueued_pos hlive) _
  | @released value _ hrun =>
    refine h.removed hminted hrun hruns (fun _ _ => by rw [hdiscards]) (hdiscards ▸ h.distinct) ?_
    rw [hdiscards]
    exact Nat.le_add_right _ _

/-- A call that reopens a run for the first time keeps the queue bounded. -/
theorem discarding_of_reopened (hminted : Minted minted state)
    (h : Discarding minted reopened state) (hreopens : call.reopens = some (runId, generation))
    (hnot : runId ∉ reopened) (hgeneration : generation = generationFor network runId "s1")
    (hchange : RunsChange state call next.runs next.discards) : Discarding minted (reopened ++ [runId]) next := by
  generalize hruns : next.runs = runs at hchange
  generalize hdiscards : next.discards = discards at hchange
  cases hchange with
  | kept hnone | ended hnone =>
    rw [hnone] at hreopens
    cases hreopens
  | edited _ hedit =>
    rw [hedit.reopens] at hreopens
    cases hreopens
  | discarded | started | indexed | setAside | released => cases hreopens
  | reopened hrun hstatus =>
    cases hreopens
    exact h.continued hminted hrun hstatus hnot hgeneration hruns hdiscards

/-- However the calls interleave, what is queued stays distinct and bounded. -/
theorem discarding_after (calls : List Call) (hfresh : FreshIds calls) (honce : ReopenedOnce calls) :
    Discarding (mintedIds calls) (reopenedIds calls) (after calls) := by
  refine @run_induction _ _ _ apply {} (fun calls => FreshIds calls ∧ ReopenedOnce calls)
    (fun calls => Discarding (mintedIds calls) (reopenedIds calls))
    (fun _ _ h => ⟨h.1.cut, h.2.cut⟩) discarding_empty ?_ ?_ calls ⟨hfresh, honce⟩
  · intro calls call refusal hadmits h hrefused
    unfold reopenedIds at h ⊢
    rw [reopenings_snoc_error hrefused]
    exact h.mono (mintedIds_subset calls call)
  · rintro calls call next ⟨hfresh, honce⟩ h happly
    refine Discarding.mono ?_ (mintedIds_subset calls call)
    have hminted := minted_after calls hfresh.cut
    have hchange := runsChange_of_ok (exclusive_after calls).shadowed happly
    unfold reopenedIds
    rw [reopenings_snoc_ok happly, map_append]
    cases hreopens : call.reopens with
    | none =>
      have hexclusive := exclusive_of_ok (exclusive_after calls) happly
      rw [Option.toList_none, map_nil, append_nil]
      exact discarding_of_change hexclusive hminted h (fun _ => hfresh.fresh) hreopens hchange
    | some item =>
      obtain ⟨hnot, network, hgeneration⟩ := honce.last happly hreopens
      exact discarding_of_reopened hminted h hreopens hnot hgeneration hchange

/-- However Routine transitions interleave, removals done at any moment and in any order included,
at most `MAX_DISCARDS` removals wait and none waits twice, as long as every run is reopened at most
once and only as its first continuation. -/
theorem discards_bounded_and_distinct (calls : List Call) (hfresh : FreshIds calls) (honce : ReopenedOnce calls) :
    (after calls).discards.length ≤ maxDiscards ∧ (after calls).discards.Nodup := by
  have h := discarding_after calls hfresh honce
  have hbound := h.bound
  unfold pending at hbound
  refine ⟨?_, h.distinct⟩
  unfold maxDiscards maxRoutines
  omega

end

/-- A run held, continued once, and its first generation's removal done. -/
def continuedCalls : List Call :=
  [createMinute, ⟨.claim 1000 zeros true, draw 2⟩,
    ⟨.bindGeneration (drawnId 2) (drawnLease 2) 1001 zeros, draw 3⟩,
    ⟨.fence (drawnId 2) (drawnLease 2) 1002, draw 4⟩,
    ⟨.settleHold (drawnId 2) 1003 unknownStep, draw 5⟩,
    ⟨.reopenIncident (drawnId 2) 1004 (generationFor zeros (drawnId 2) "s1"), draw 6⟩,
    ⟨.discarded (drawnId 2) (generationFor zeros (drawnId 2) ""), draw 7⟩]

attribute [local instance] utcPlatform

theorem reopenings_continuedCalls :
    reopenings continuedCalls = [(drawnId 2, generationFor zeros (drawnId 2) "s1")] := by
  unfold reopenings continuedCalls
  rw [applied_createMinute]
  decide +kernel

theorem discards_bounded_and_distinct_continued :
    FreshIds continuedCalls ∧ ReopenedOnce continuedCalls ∧
      (after continuedCalls).discards.length ≤ maxDiscards ∧ (after continuedCalls).discards.Nodup := by
  have hfresh : FreshIds continuedCalls := by
    unfold FreshIds
    decide
  have honce : ReopenedOnce continuedCalls := by
    refine ⟨?_, fun item hitem => ⟨zeros, ?_⟩⟩
    · unfold reopenedIds
      rw [reopenings_continuedCalls]
      exact nodup_singleton _
    · rw [reopenings_continuedCalls] at hitem
      rw [mem_singleton.mp hitem]
  exact ⟨hfresh, honce, discards_bounded_and_distinct continuedCalls hfresh honce⟩

end ShimpzTeams.Routines
