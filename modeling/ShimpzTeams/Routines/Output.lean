import ShimpzTeams.Routines.Define
import ShimpzTeams.Library.Window

/-!
# The schema positions a value reaches, and what is shown of it

Local references, combinators and the schemas of a present member are followed
position by position, and anything an applicator that is not modelled reaches counts
as secret when it could hold a secret. A result's safe form redacts that, credential-
shaped text, and what holds a protected value; the shown form is the safe form cut to
a ladder of bounds until it fits. In the copy an input preview is made from, keys that
would show a secret get a redacted name no other key of their object holds.
-/

namespace ShimpzTeams.Routines

open StrictJson Protocol

/-- The vendored schema library: its pattern matcher, whose work is budgeted, and its validator. -/
class SchemaEngine where
  /-- What is left of a matcher's work. -/
  Budget : Type
  /-- `Budget::default()`. -/
  budget : Budget
  /-- Whether a pattern matches a text, unless the budget runs out. -/
  patternMatches : String → String → Budget → Option (Bool × Budget)
  /-- Whether a schema admits a payload. -/
  validatePayload : Value → Value → Bool

/-- Literal nesting and schema indirection checked for secret destinations. -/
def maxSecretDepth : Nat := 64

def secretMarkers : List String :=
  ["secret", "password", "passwd", "token", "api_key", "apikey", "private_key", "access_key",
    "credential"]

/-- Applicators whose effect at a position is not modelled. -/
def unmodelled : List String :=
  ["if", "then", "else", "not", "contains", "unevaluatedItems", "contentSchema", "propertyNames"]

/-- The positions that hold one subschema. -/
def applicators : List String :=
  ["additionalProperties", "contains", "contentSchema", "else", "if", "items", "not",
    "propertyNames", "then", "unevaluatedItems", "unevaluatedProperties"]

/-- The positions that hold a list of subschemas. -/
def listApplicators : List String := ["allOf", "anyOf", "oneOf", "prefixItems"]

/-- The positions that hold a map of subschemas. -/
def mapApplicators : List String :=
  ["$defs", "definitions", "dependentSchemas", "patternProperties", "properties"]

/-- A subschema at one position: a node, or every subschema the parent applies there. -/
inductive Sub where
  | node (schema : Value)
  | allOf (schemas : List Value)

/-- What a position holds, as far as a dependent schema needs it. -/
inductive Held where
  | unknown
  | value (value : Value)
  | supplied (members : List (String × Option Value))

/-- Whether the dependent schema of a member applies, `none` when the position holds no object. -/
def Held.depends (key : String) : Held → Option Bool
  | .unknown => some true
  | .value (.object found) => some (found.any fun member => member.1 == key)
  | .supplied found => some (found.any fun member => member.1 == key)
  | .value _ => none

/-- A text with each `~` and the digit after it written as a character. -/
def replaceEscape (digit character : Char) : List Char → List Char
  | '~' :: second :: rest =>
    if second == digit then character :: replaceEscape digit character rest
    else '~' :: replaceEscape digit character (second :: rest)
  | first :: rest => first :: replaceEscape digit character rest
  | [] => []

/-- A pointer token with its escapes decoded, slashes first. -/
def unescape (token : List Char) : String :=
  String.ofList (replaceEscape '0' '~' (replaceEscape '1' '/' token))

def referenceTarget (root : Value) (reference : String) : Option Value :=
  if reference == "#" then some root
  else
    let rest := reference.toList.drop 2
    let container := rest.takeWhile fun character => character != '/'
    let name := (rest.dropWhile fun character => character != '/').drop 1
    (root.get (String.ofList container)).bind fun found => found.get (unescape name)

def referred (root node : Value) : List (Option Value) :=
  match (node.get "$ref").bind string with
  | some reference => [referenceTarget root reference]
  | none => []

def appliedSubschemas (node : Value) : List Value :=
  applicators.filterMap node.get ++
    listApplicators.flatMap (fun keyword => elements (fieldOf node keyword)) ++
    mapApplicators.flatMap fun keyword => (members (fieldOf node keyword)).map Prod.snd

/-- What a node leads to at the same position. -/
def reachedBy (root : Value) (held : Held) (node : Value) : List (Option Value) :=
  referred root node ++
    ["allOf", "anyOf", "oneOf"].flatMap (fun keyword => (elements (fieldOf node keyword)).map some) ++
    ((members (fieldOf node "dependentSchemas")).filter fun dependent =>
      held.depends dependent.1 == some true).map fun dependent => some dependent.2

/-- A node and what it leads to at one position, within some levels of indirection. -/
def collect (root : Value) (held : Held) : Nat → Option Value → Except PlanError (List Value)
  | 0, _ => .error .secretLiteral
  | levels + 1, some (.object found) => do
      let reached ← (reachedBy root held (.object found)).mapM (collect root held levels)
      .ok (.object found :: reached.flatten)
  | _ + 1, _ => .ok []

/-- The subschemas that apply at one position. -/
def applicable (root : Value) (sub : Sub) (held : Held) : Except PlanError (List Value) :=
  match sub with
  | .node schema => collect root held (maxSecretDepth + 1) (some schema)
  | .allOf schemas =>
    (schemas.mapM fun schema => collect root held maxSecretDepth (some schema)).map List.flatten

section

variable [SchemaEngine]

def matchedPatterns (key : String) :
    SchemaEngine.Budget → List (String × Value) → Except PlanError (List Value × SchemaEngine.Budget)
  | budget, [] => .ok ([], budget)
  | budget, (pattern, schema) :: rest =>
    match SchemaEngine.patternMatches pattern key budget with
    | none => .error .secretLiteral
    | some (found, budget) =>
      (matchedPatterns key budget rest).map fun matched =>
        (if found then schema :: matched.1 else matched.1, matched.2)

def memberSchemasFrom (key : String) :
    SchemaEngine.Budget → List Value → Except PlanError (List Value)
  | _, [] => .ok []
  | budget, item :: rest => do
      let matched ← matchedPatterns key budget (members (fieldOf item "patternProperties"))
      let later ← memberSchemasFrom key matched.2 rest
      let property := (fieldOf item "properties").get key
      let additional :=
        if property.isNone && matched.1.isEmpty && isObject (fieldOf item "additionalProperties") then
          [fieldOf item "additionalProperties"]
        else []
      .ok (property.toList ++ matched.1 ++ additional ++ later)

/-- Every subschema the candidates apply to one object member. -/
def memberSchemas (candidates : List Value) (key : String) : Except PlanError Sub :=
  (memberSchemasFrom key SchemaEngine.budget candidates).map Sub.allOf

end

/-- Every subschema the candidates apply to one array item. -/
def itemSchemas (candidates : List Value) (index : Nat) : Sub :=
  .allOf (candidates.flatMap fun item =>
    match (elements (fieldOf item "prefixItems"))[index]? with
    | some schema => [schema]
    | none => (item.get "items").toList)

def holdsText (word : String) : List Char → Bool
  | [] => word.isEmpty
  | character :: rest => (afterText word (character :: rest)).isSome || holdsText word rest

def secretName [Platform] (name : String) : Bool :=
  let lowered := (Platform.lower name).toList.map fun character =>
    if character == '-' then '_' else character
  secretMarkers.any fun marker => holdsText marker lowered

/-- Whether a subschema is annotated as a secret. -/
def marked (schema : Value) : Bool :=
  (match fieldOf schema "writeOnly" with
    | .bool flag => flag
    | _ => false) || string (fieldOf schema "format") == some "password"

def couldHoldSecret [Platform] (root : Value) : Nat → Option Value → Bool
  | 0, _ => true
  | levels + 1, some (.object found) =>
    marked (.object found) ||
      ((members (fieldOf (.object found) "properties")).any fun property => secretName property.1) ||
      (((appliedSubschemas (.object found)).map some ++ referred root (.object found)).any
        (couldHoldSecret root levels))
  | _ + 1, _ => false

def secretPosition [Platform] (root : Value) (name : String) (candidates : List Value) : Bool :=
  secretName name || candidates.any marked ||
    candidates.any fun item =>
      (unmodelled.filterMap item.get).any fun reached =>
        couldHoldSecret root (maxSecretDepth + 1) (some reached)

def maxOutputItems : Nat := 50

/-- Members of a shown object at most. -/
def maxOutputFields : Nat := 24

def maxOutputTextChars : Nat := 300

/-- Characters of a shown member's label at most. -/
def maxOutputKeyChars : Nat := 64

def maxOutputNumberChars : Nat := 64

/-- A shown output's encoding at most. -/
def maxOutputBytes : Nat := 16 * 1024

/-- The bounds a shown result is cut to, each tried in turn until its encoding fits. -/
def outputLevels : List (Nat × Nat × Nat) :=
  [(maxOutputItems, maxOutputFields, maxOutputTextChars), (25, 24, 120), (12, 12, 60), (6, 8, 40),
    (3, 4, 20), (1, 2, 12), (0, 0, 0)]

/-- The safe form a change is compared on; a larger one always compares as changed. -/
def maxComparedOutputBytes : Nat := 1024 * 1024

def maxSafeOutputDepth : Nat := maxSecretDepth

def outputRedactedKey : String := "[redacted]"

def outputRedacted : Value := objectOf [("kind", text "redacted")]

def outputElided : Value := objectOf [("kind", text "elided")]

section

variable {found : List (String × Value)}

section

def protects (text : String) (protectedValues : List String) : Bool :=
  protectedValues.any fun secret => holdsText secret text.toList

/-- `EMPTY` in place of a schema that is no object. -/
def rootOf (schema : Value) : Value := if isObject schema then schema else .object []

def protectedOf (protectedValues : List String) : List String :=
  protectedValues.filter fun item => !item.isEmpty

/-- An object's members in sorted key order. -/
def sortedByKey (found : List (String × Value)) : List (String × Value) :=
  found.insertionSort fun left right => left.1 ≤ right.1

theorem sortedByKey_map (change : String × Value → Value) :
    (sortedByKey found).map (fun member => (member.1, change member)) =
      sortedByKey (found.map fun member => (member.1, change member)) :=
  List.map_insertionSort _ _ _ _ fun _ _ _ _ => Iff.rfl

theorem mem_sortedByKey {member} : member ∈ sortedByKey found ↔ member ∈ found :=
  (List.perm_insertionSort _ found).mem_iff

variable [Platform]

/-- `scalar`: the node of a value without children. -/
def safeScalar : Value → Value
  | .null => objectOf [("kind", text "null")]
  | .bool flag => objectOf [("kind", text "bool"), ("value", .bool flag)]
  | .string found =>
    if resemblesCredential found then outputRedacted
    else objectOf [("kind", text "text"), ("value", text found), ("cut", .bool false)]
  | value => objectOf [("kind", text "number"), ("value", value)]

/-- The label of the `n`-th redacted key. -/
def redactedLabel (count : Nat) : String :=
  if count = 1 then outputRedactedKey else outputRedactedKey ++ " " ++ toString count

/-- The entries of an object's members in the order given, `redacted` keys having been redacted. -/
def safeEntries (protectedValues : List String) (member : String → Value → Except PlanError Value) :
    Nat → List (String × Value) → Except PlanError (List Value)
  | _, [] => .ok []
  | redacted, (key, item) :: rest =>
    if resemblesCredential key || protects key protectedValues then
      (safeEntries protectedValues member (redacted + 1) rest).map fun shown =>
        .array [text (redactedLabel (redacted + 1)), outputRedacted] :: shown
    else do
      let node ← member key item
      let shown ← safeEntries protectedValues member redacted rest
      .ok (.array [text key, node] :: shown)

variable [SchemaEngine]

/-- `node`: the safe form of a value with some levels of nesting left. -/
def safeNode (root : Value) (protectedValues : List String) :
    Nat → Value → Sub → String → Except PlanError Value
  | 0, _, _, _ => .ok outputElided
  | levels + 1, value, sub, name => do
      let candidates ← applicable root sub (.value value)
      if secretPosition root name candidates then .ok outputRedacted
      else
        match value with
        | .object found => do
            let shown ← safeEntries protectedValues (fun key item =>
              match memberSchemas candidates key with
              | .error _ => .ok outputRedacted
              | .ok schemas => safeNode root protectedValues levels item schemas key) 0
              (sortedByKey found)
            .ok (objectOf [("kind", text "fields"), ("fields", .array shown), ("omitted", int 0)])
        | .array items => do
            let shown ← items.zipIdx.mapM fun item =>
              safeNode root protectedValues levels item.1 (itemSchemas candidates item.2) name
            .ok (objectOf [("kind", text "list"), ("items", .array shown), ("omitted", int 0)])
        | .string found =>
          .ok (if protects found protectedValues then outputRedacted else safeScalar value)
        | _ => .ok (safeScalar value)

/-- `output_safe`: the complete safe form of one validated result under its Action's output schema. -/
def outputSafe (result schema : Value) (protectedValues : List String) : Except PlanError Value :=
  safeNode (rootOf schema) (protectedOf protectedValues) (maxSafeOutputDepth + 1) result
    (.node (rootOf schema)) ""

/-- `output_compared`: the exact text a change is compared on, unless it is too large to compare. -/
def outputCompared (node : Value) : Option String :=
  let encoded := dumps node ⟨true, true, true⟩
  if encoded.utf8ByteSize ≤ maxComparedOutputBytes then some encoded else none

end

section

variable [Platform]

def Output.shownOutput (step value : Value) (truncated : Bool) : Value :=
  objectOf [("step", step), ("state", text "shown"), ("value", value), ("truncated", .bool truncated)]

/-- A key as shown, and whether it was shortened. -/
def outputLabel (key : String) : String × Bool :=
  let escapedKey := escaped key
  let label := if escapedKey.isEmpty then "\"\"" else escapedKey
  if label.length ≤ maxOutputKeyChars then (label, false)
  else
    (String.ofList (label.toList.take (maxOutputKeyChars - 8)) ++ "…" ++
      String.ofList ((sha256Hex key).toList.take 7), true)

def numberedLabel (labels : List String) (label : String) : Nat → Nat → String
  | 0, number => String.ofList (label.toList.take (maxOutputKeyChars - 6)) ++ " (" ++ toString number ++ ")"
  | tries + 1, number =>
    let shown := String.ofList (label.toList.take (maxOutputKeyChars - 6)) ++ " (" ++ toString number ++ ")"
    if labels.contains shown then numberedLabel labels label tries (number + 1) else shown

/-- Each key's label after some labels, numbering any that read alike, and whether any was shortened. -/
def outputLabelsFrom (labels : List String) : List String → List String × Bool
  | [] => ([], false)
  | key :: rest =>
    let label := outputLabel key
    let alike := labels.contains label.1
    -- at most as many numbered labels are taken as there are labels
    let shown := if alike then numberedLabel labels label.1 labels.length 2 else label.1
    let later := outputLabelsFrom (labels ++ [shown]) rest
    (shown :: later.1, label.2 || (alike && decide (maxOutputKeyChars - 6 < label.1.length)) || later.2)

/-- `output_labels`: each key's label, and whether any was shortened. -/
def outputLabels (keys : List String) : List String × Bool := outputLabelsFrom [] keys

def textNode (node : Value) (chars : Nat) : Value × Bool :=
  let shown (written : String) : Value × Bool :=
    if written.length ≤ chars then
      (objectOf [("kind", text "text"), ("value", text written), ("cut", .bool false)], false)
    else
      (objectOf [("kind", text "text"),
        ("value", text (String.ofList (written.toList.take (chars - 1) ++ ['…']))), ("cut", .bool true)],
        true)
  if string (fieldOf node "kind") == some "number" then
    let written := match fieldOf node "value" with
      | .number number => String.ofList (numberText number)
      | other => canonical other
    if written.length ≤ maxOutputNumberChars then
      (objectOf [("kind", text "number"), ("value", text written)], false)
    else shown written
  else shown (escaped ((string (fieldOf node "value")).getD ""))

def display (limits : Nat × Nat × Nat) : Nat → Value → Value × Bool
  | levels, node =>
    let kind := (string (fieldOf node "kind")).getD ""
    if kind == "text" || kind == "number" then textNode node limits.2.2
    else if kind != "list" && kind != "fields" then (node, false)
    else
      match levels with
      | 0 => (outputElided, true)
      | levels + 1 =>
        let list := kind == "list"
        let key := if list then "items" else "fields"
        let entries := elements (fieldOf node key)
        let kept := entries.take (if list then limits.1 else limits.2.1)
        let labels := outputLabels (kept.map fun entry =>
          (string ((elements entry).head?.getD .null)).getD "")
        let children := kept.map fun entry =>
          display limits levels (if list then entry else ((elements entry)[1]?).getD .null)
        let shown := if list then children.map Prod.fst
          else (children.zip labels.1).map fun child => .array [text child.2, child.1.1]
        let earlier := fieldOf node "omitted"
        let omitted := match smallInt earlier with
          | some count => int (count + (entries.length - kept.length : Nat))
          | none => earlier
        (objectOf [("kind", text kind), (key, .array shown), ("omitted", omitted)],
          (!list && labels.2) || children.any Prod.snd || decide (kept.length < entries.length))

/-- The safe form as shown under the first bounds whose whole output fits. -/
def shownWithin (step node : Value) : List (Nat × Nat × Nat) → Value
  | [] => Output.shownOutput step outputElided true
  | limits :: rest =>
    let shown := display limits maxOutputDepth node
    let candidate := Output.shownOutput step shown.1 shown.2
    if encodedBytes candidate ≤ maxOutputBytes then candidate else shownWithin step node rest

/-- `output_shown`: the safe form as shown. -/
def outputShown (step node : Value) : Value := shownWithin step node outputLevels

end

/-- What a redacted value or key reads as. -/
def inputRedacted : String := "[redacted]"

variable [Platform] [SchemaEngine]

/-- `redacted`: a copy with what may be secret redacted, with some levels of nesting left. -/
def redacted (root : Value) : Nat → Value → Sub → String → Except PlanError Value
  | 0, _, _, _ => .ok (text inputRedacted)
  | levels + 1, value, sub, name => do
      let candidates ← applicable root sub (.value value)
      if secretPosition root name candidates then .ok (text inputRedacted)
      else
        match value with
        | .object found => do
            let copied ← (sortedByKey found).mapM fun member =>
              if resemblesCredential member.1 then .ok (member.1, text inputRedacted)
              else do
                let schemas ← memberSchemas candidates member.1
                let copied ← redacted root levels member.2 schemas member.1
                .ok (member.1, copied)
            .ok (.object copied)
        | .array items => do
            let copied ← items.zipIdx.mapM fun item =>
              redacted root levels item.1 (itemSchemas candidates item.2) name
            .ok (.array copied)
        | .string found => .ok (if resemblesCredential found then text inputRedacted else value)
        | _ => .ok value

def previewOf (schema value : Value) : Except PlanError Value :=
  redacted schema (maxSecretDepth + 1) value (.node schema) ""

end

open Library

section

def redactedName (count : Nat) : String := inputRedacted ++ " " ++ toString count

def hiddenFrom (hide : String → Bool) : List String → Nat → List String → List (String × String)
  | _, _, [] => []
  | taken, count, key :: rest =>
    if hide key then
      -- the loop ends within one try more than there are names
      let free := (firstFree redactedName taken (taken.length + 1) count).getD count
      (key, redactedName free) :: hiddenFrom hide (redactedName free :: taken) free rest
    else (key, key) :: hiddenFrom hide taken count rest

/-- `hidden`: each key, in name order, with itself or a redacted name no other key holds. -/
def hidden (keys : List String) (hide : String → Bool) : List (String × String) :=
  hiddenFrom hide keys 0 (keys.insertionSort (· ≤ ·))

def nameOf (names : List (String × String)) (key : String) : String :=
  ((names.reverse.find? fun entry => entry.1 == key).map Prod.snd).getD key

variable [Platform] (protectedValues : List String)

def injected (found : String) : Bool := protects found (protectedOf protectedValues)

def scrubbedNames (found : List (String × Value)) : List (String × String) :=
  hidden (found.map Prod.fst) fun key => resemblesCredential key || injected protectedValues key

mutual

/-- `scrubbed`: the value with injected values and their keys, and credential-shaped keys, hidden. -/
def scrubbed : Value → Value
  | .string found => if injected protectedValues found then text inputRedacted else .string found
  | .array items => .array (scrubbedItems items)
  | .object found => .object (scrubbedMembers (scrubbedNames protectedValues found) found)
  | value => value

def scrubbedItems : List Value → List Value
  | [] => []
  | item :: rest => scrubbed item :: scrubbedItems rest

def scrubbedMembers (names : List (String × String)) : List (String × Value) → List (String × Value)
  | [] => []
  | (key, item) :: rest => (nameOf names key, scrubbed item) :: scrubbedMembers names rest

end

variable {protectedValues}

theorem scrubbedItems_eq_map (items : List Value) :
    scrubbedItems protectedValues items = items.map (scrubbed protectedValues) := by
  induction items with
  | nil => rfl
  | cons item rest ih => rw [scrubbedItems, ih, List.map_cons]

theorem scrubbedMembers_eq_map (names : List (String × String)) (found : List (String × Value)) :
    scrubbedMembers protectedValues names found =
      found.map fun member => (nameOf names member.1, scrubbed protectedValues member.2) := by
  induction found with
  | nil => rfl
  | cons member rest ih => rw [scrubbedMembers, ih, List.map_cons]

end

section

variable {taken keys : List String}

theorem redactedName_injective : Function.Injective redactedName := by
  intro left right h
  have hrepr : left.repr = right.repr := (String.append_right_inj _).mp h
  rw [Nat.repr_eq_ofList_toDigits, Nat.repr_eq_ofList_toDigits] at hrepr
  have hvalue := congrArg (fun digits => Nat.ofDigitChars 10 digits 0) (String.ofList_injective hrepr)
  simpa using hvalue

structure Hides (hide : String → Bool) (taken keys : List String) (names : List (String × String)) : Prop where
  listed : names.map Prod.fst = keys
  named : ∀ entry ∈ names, hide entry.1 = false ∧ entry.2 = entry.1 ∨
    entry.2 ∉ taken ∧ ∃ number, entry.2 = redactedName number
  distinct : keys.Nodup → keys ⊆ taken → (names.map Prod.snd).Nodup

/-- One key more before some named ones, which avoid its name. -/
theorem Hides.cons {hide wider names key name} (h : Hides hide wider keys names) (hwider : taken ⊆ wider)
    (hnamed : hide key = false ∧ name = key ∨ name ∉ taken ∧ ∃ number, name = redactedName number)
    (hname : (key :: keys).Nodup → key :: keys ⊆ taken → name ∈ wider ∧ name ∉ keys) :
    Hides hide taken (key :: keys) ((key, name) :: names) where
  listed := by rw [List.map_cons, h.listed]
  named := by
    refine List.forall_mem_cons.mpr ⟨hnamed, fun entry hentry => ?_⟩
    exact (h.named entry hentry).imp_right fun hnew => ⟨fun htaken => hnew.1 (hwider htaken), hnew.2⟩
  distinct hnodup hsubset := by
    obtain ⟨hmem, hout⟩ := hname hnodup hsubset
    obtain ⟨-, hkeys⟩ := List.cons_subset.mp hsubset
    refine List.nodup_cons.mpr ⟨fun hlater => ?_, h.distinct (List.nodup_cons.mp hnodup).2
      (List.Subset.trans hkeys hwider)⟩
    obtain ⟨entry, hentry, rfl⟩ := List.mem_map.mp hlater
    rcases h.named entry hentry with ⟨-, hown⟩ | ⟨hnew, -⟩
    · have hkey : entry.1 ∈ keys := h.listed ▸ List.mem_map_of_mem hentry
      exact hout (hown ▸ hkey)
    · exact hnew hmem

theorem hides_hiddenFrom {hide count} : Hides hide taken keys (hiddenFrom hide taken count keys) := by
  induction keys generalizing taken count with
  | nil => exact ⟨rfl, List.forall_mem_nil _, fun _ _ => List.nodup_nil⟩
  | cons key rest ih =>
    rw [hiddenFrom]
    split
    next =>
      obtain ⟨free, hfirst⟩ := exists_firstFree redactedName_injective taken count
      obtain ⟨-, hfree⟩ := firstFree_eq_some hfirst
      rw [hfirst, Option.getD_some]
      refine ih.cons (List.subset_cons_self _ _) (.inr ⟨hfree, free, rfl⟩) fun _ hsubset => ?_
      exact ⟨List.mem_cons_self, fun hkey => hfree (hsubset (List.mem_cons_of_mem key hkey))⟩
    next hshown =>
      refine ih.cons (List.Subset.refl _) (.inl ⟨by simpa using hshown, rfl⟩) fun hnodup hsubset => ?_
      exact ⟨hsubset List.mem_cons_self, (List.nodup_cons.mp hnodup).1⟩

theorem mem_nameOf {names key} (h : key ∈ names.map Prod.fst) : (key, nameOf names key) ∈ names := by
  cases hfound : names.reverse.find? fun entry => entry.1 == key with
  | none =>
    obtain ⟨entry, hentry, rfl⟩ := List.mem_map.mp h
    exact absurd (beq_self_eq_true entry.1) (List.find?_eq_none.mp hfound entry (List.mem_reverse.mpr hentry))
  | some entry =>
    obtain ⟨hentry, rfl⟩ := find?_key_mem hfound
    rw [nameOf, hfound]
    exact List.mem_reverse.mp hentry

/-- Distinct keys get distinct names, each its own unless it is hidden. -/
theorem nameOf_hidden (keys : List String) (hide : String → Bool) :
    (keys.Nodup → (keys.map (nameOf (hidden keys hide))).Nodup) ∧
      ∀ key ∈ keys, hide key = false ∧ nameOf (hidden keys hide) key = key ∨
        ∃ number, nameOf (hidden keys hide) key = redactedName number := by
  have hhides : Hides hide keys (keys.insertionSort (· ≤ ·)) (hidden keys hide) := hides_hiddenFrom
  have hperm : (keys.insertionSort (· ≤ ·)).Perm keys := List.perm_insertionSort _ keys
  have hmem : ∀ key ∈ keys, (key, nameOf (hidden keys hide) key) ∈ hidden keys hide := by
    intro key hkey
    refine mem_nameOf ?_
    rw [hhides.listed]
    exact hperm.mem_iff.mpr hkey
  refine ⟨fun hnodup => ?_, fun key hkey => ?_⟩
  · have hdistinct := hhides.distinct (hperm.nodup_iff.mpr hnodup) hperm.subset
    refine hnodup.map_on fun left hleft right hright hsame => ?_
    exact (Prod.mk.inj (List.inj_on_of_nodup_map hdistinct (hmem left hleft) (hmem right hright) hsame)).1
  · exact (hhides.named _ (hmem key hkey)).imp_right fun hnew => hnew.2

end

variable {protectedValues : List String}

theorem holdsText_iff {word text} : holdsText word text = true ↔ word.toList <:+: text := by
  induction text with
  | nil => simp [holdsText]
  | cons character rest ih =>
    rw [holdsText, Bool.or_eq_true, ih, List.infix_cons_iff, isSome_afterText]

theorem injected_iff {found} : injected protectedValues found = true ↔
      ∃ secret ∈ protectedValues, secret ≠ "" ∧ secret.toList <:+: found.toList := by
  simp only [injected, protects, protectedOf, List.any_eq_true, List.mem_filter, holdsText_iff, and_assoc]
  simp

def Clean (protectedValues : List String) (text : String) : Prop :=
  (∀ secret ∈ protectedValues, ∀ number, ¬secret.toList <:+: (redactedName number).toList) →
    ∀ secret ∈ protectedValues, ¬secret.toList <:+: text.toList

/-- A copy that differs in texts and names only. At every level an object has as many members as the
original, under distinct names where those were, and the texts and names are clean. -/
inductive Scrubs (clean : String → Prop) : Value → Value → Prop where
  | null : Scrubs clean .null .null
  | bool (flag : Bool) : Scrubs clean (.bool flag) (.bool flag)
  | number (number : Number) : Scrubs clean (.number number) (.number number)
  | string {found copy} (hclean : clean copy) : Scrubs clean (.string found) (.string copy)
  | array {items copies} (hitems : List.Forall₂ (Scrubs clean) items copies) :
      Scrubs clean (.array items) (.array copies)
  | object {found copies} (hdistinct : (found.map Prod.fst).Nodup → (copies.map Prod.fst).Nodup)
      (hnames : ∀ copy ∈ copies, clean copy.1)
      (hmembers : List.Forall₂ (fun member copy => Scrubs clean member.2 copy.2) found copies) :
      Scrubs clean (.object found) (.object copies)

theorem clean_of_not_injected {found} (h : injected protectedValues found = false) : Clean protectedValues found := by
  intro hredacted secret hsecret hholds
  refine Bool.false_ne_true (h.symm.trans (injected_iff.mpr ⟨secret, hsecret, ?_, hholds⟩))
  rintro rfl
  exact hredacted "" hsecret 0 List.nil_infix

theorem clean_inputRedacted : Clean protectedValues inputRedacted := by
  intro hredacted secret hsecret hholds
  refine hredacted secret hsecret 0 (hholds.trans (List.IsPrefix.isInfix ?_))
  exact ⟨[' ', '0'], by decide⟩

/-- The search for a free redacted name ends whatever names are taken, and the copy an input preview is
made from keeps every object's members, their names distinct, and holds no protected value that no
redacted name holds. -/
theorem scrubbed_copy_keeps_and_hides [Platform] (protectedValues : List String) (value : Value) :
    (∀ taken count, ∃ free, firstFree redactedName taken (taken.length + 1) count = some free ∧
      redactedName free ∉ taken) ∧
      Scrubs (Clean protectedValues) value (scrubbed protectedValues value) := by
  refine ⟨fun taken count => ?_, ?_⟩
  · obtain ⟨free, hfirst⟩ := exists_firstFree redactedName_injective taken count
    exact ⟨free, hfirst, (firstFree_eq_some hfirst).2⟩
  induction value using Value.induct with
  | null => exact .null
  | bool flag => exact .bool flag
  | number number => exact .number number
  | string found =>
    rw [scrubbed]
    split
    · exact .string clean_inputRedacted
    next hplain => exact .string (clean_of_not_injected (by simpa using hplain))
  | array items ih =>
    rw [scrubbed, scrubbedItems_eq_map]
    exact .array (List.forall₂_map_right_iff.mpr (List.forall₂_same.mpr ih))
  | object found ih =>
    obtain ⟨hdistinct, hnamed⟩ := nameOf_hidden (found.map Prod.fst) fun key =>
      resemblesCredential key || injected protectedValues key
    rw [scrubbed, scrubbedMembers_eq_map]
    refine .object ?_ ?_ (List.forall₂_map_right_iff.mpr (List.forall₂_same.mpr ih))
    · rw [List.map_map] at hdistinct ⊢
      exact hdistinct
    · intro copy hcopy
      obtain ⟨member, hmember, rfl⟩ := List.mem_map.mp hcopy
      rcases hnamed member.1 (List.mem_map_of_mem hmember) with ⟨hshown, hown⟩ | ⟨number, hnumber⟩
      · rw [Bool.or_eq_false_iff] at hshown
        change Clean protectedValues (nameOf _ member.1)
        rw [scrubbedNames, hown]
        exact clean_of_not_injected hshown.2
      · change Clean protectedValues (nameOf _ member.1)
        rw [scrubbedNames, hnumber]
        exact fun hredacted secret hsecret => hredacted secret hsecret number

end ShimpzTeams.Routines
