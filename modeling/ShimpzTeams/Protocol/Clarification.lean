import ShimpzTeams.Protocol.Value

/-!
# Clarified messages

A clarification's answer is sent as one message: the original request, then the question
and the answer behind their labels. What the person wrote is read back out of it.
-/

namespace ShimpzTeams.Clarification

open Protocol List

/-- A locale, and its labels of a question and an answer. -/
abbrev Labels := String × String × String

def clarificationLabels : List Labels :=
  [("ar", "السؤال", "الإجابة"), ("de", "Frage", "Antwort"), ("en", "Question", "Answer"),
    ("es", "Pregunta", "Respuesta"), ("fr", "Question", "Réponse"), ("ja", "質問", "回答"),
    ("pt", "Pergunta", "Resposta"), ("zh", "问题", "回答")]

abbrev Line := List Char

def linesOf (message : String) : List Line := message.toList.splitOn '\n'

def joined (lines : List Line) : String := String.ofList (['\n'].intercalate lines)

/-- A label and a colon, before a text. -/
def labelling (label : String) (text : Line) : Line := label.toList ++ ':' :: ' ' :: text

def labelled (label : String) (line : Line) : Option Line := (labelling label []).isPrefixOf? line

def composed (labels : Labels) (original question answer : String) : String :=
  String.ofList ((strip original).toList ++ '\n' :: '\n' :: (labelling labels.2.1 question.toList ++
    '\n' :: labelling labels.2.2 (strip answer).toList))

/-- The exact message a clarification's answer sends; none for a locale outside the labels. -/
def composeClarified (original question answer locale : String) : Option String :=
  (clarificationLabels.find? fun labels => labels.1 == locale).map fun labels =>
    composed labels original question answer

def asks (line : Line) : Bool := clarificationLabels.any fun labels => (labelled labels.2.1 line).isSome

def answerOf (line : Line) : Option Line :=
  clarificationLabels.findSome? fun labels => labelled labels.2.2 line

/-- The closed segments and the last one, after one more line. -/
def segmented (segments : List (List Line) × List Line) (line : Line) : List (List Line) × List Line :=
  if asks line then (segments.1 ++ [segments.2], [])
  else match answerOf line with
  | some answer => (segments.1 ++ [segments.2], [answer])
  | none => (segments.1, segments.2 ++ [line])

def shown (segments : List (List Line)) : List String :=
  (segments.map fun lines => strip (joined lines)).filter fun segment => !segment.isEmpty

/-- What a person wrote in a sent message, in order: its original text, then each answer. -/
def authoredSegments (message : String) : List String :=
  let segments := (linesOf message).foldl segmented ([], [])
  shown (segments.1 ++ [segments.2])

/-- A question and an answer behind the labels of one locale, of a message that is exactly composed so. -/
def clarifiedIn (message original : String) (askedLine givenLine : Line) (labels : Labels) :
    Option (String × String × String) := do
  let asked ← labelled labels.2.1 askedLine
  let given ← labelled labels.2.2 givenLine
  if !(strip original).isEmpty && !(strip (String.ofList given)).isEmpty &&
      composeClarified original (String.ofList asked) (String.ofList given) labels.1 == some message then
    some (strip original, String.ofList asked, String.ofList given)
  else none

/-- The original request, question and answer of a message that is exactly a composed one. -/
def clarifiedAnswer (message : String) : Option (String × String × String) :=
  match (linesOf message).reverse with
  | given :: asked :: _ :: first :: rest =>
    clarificationLabels.findSome? (clarifiedIn message (joined (first :: rest).reverse) asked given)
  | _ => none

section

variable {labels : Labels}

theorem newline_labels : ∀ labels ∈ clarificationLabels, '\n' ∉ labels.2.1.toList ∧ '\n' ∉ labels.2.2.toList := by
  decide

theorem find_labels : ∀ labels ∈ clarificationLabels,
    (clarificationLabels.find? fun others => others.1 == labels.1) = some labels := by
  decide

theorem labelled_labelling (label text) : labelled label (labelling label text) = some text :=
  isPrefixOf?_eq_some_iff_append_eq.mpr (by simp [labelling])

/-- No label of a question is one of an answer. -/
theorem read_labelling (hlabels : labels ∈ clarificationLabels) (text) :
    asks (labelling labels.2.1 text) = true ∧ asks (labelling labels.2.2 text) = false ∧
      answerOf (labelling labels.2.2 text) = some text := by
  fin_cases hlabels <;> exact ⟨rfl, rfl, rfl⟩

/-- No two locales share both of their labels. -/
theorem clarifiedIn_other (hlabels : labels ∈ clarificationLabels) {others} (hothers : others ∈ clarificationLabels)
    (message original asked given) :
    clarifiedIn message original (labelling labels.2.1 asked) (labelling labels.2.2 given) others = none ∨
      others = labels := by
  fin_cases hlabels <;> fin_cases hothers <;> first | exact .inr rfl | exact .inl rfl

end

theorem strip_eq (text) : strip (String.ofList text) = String.ofList ((text.dropWhile isspace).rdropWhile isspace) := by
  rw [strip, String.toList_ofList]
  rfl

theorem strip_strip (value) : strip (strip value) = strip value := by
  rw [← String.ofList_toList (s := value), strip_eq, strip_eq]
  generalize hfront : value.toList.dropWhile isspace = front
  have hkept : (front.rdropWhile isspace).dropWhile isspace = front.rdropWhile isspace := by
    have hclean : front.dropWhile isspace = front := by rw [← hfront, dropWhile_idempotent]
    rw [dropWhile_eq_self_iff] at hclean ⊢
    intro hlength
    have hstarts := rdropWhile_prefix isspace front
    rw [hstarts.getElem]
    exact hclean (hlength.trans_le hstarts.length_le)
  rw [hkept, rdropWhile_idempotent]

/-- A blank last line is no part of a segment. -/
theorem strip_joined_blank (lines) : strip (joined (lines ++ [[]])) = strip (joined lines) := by
  cases lines using List.reverseRecOn with
  | nil => rfl
  | append_singleton lines line =>
    have hjoin : ['\n'].intercalate (lines ++ [line] ++ [[]]) = ['\n'].intercalate (lines ++ [line]) ++ ['\n'] := by
      induction lines with
      | nil => simp [List.intercalate]
      | cons first rest ih => cases rest <;> simp_all [List.intercalate]
    rw [joined, joined, strip_eq, strip_eq, hjoin, dropWhile_append]
    split
    · next hempty =>
      rw [List.isEmpty_iff.mp hempty]
      rfl
    · rw [rdropWhile_concat, if_pos (by decide)]

section

variable {lines : List Line}

/-- A line that starts with no label. -/
def Unmarked (line : Line) : Prop := asks line = false ∧ answerOf line = none

theorem foldl_unmarked (segments) (h : ∀ line ∈ lines, Unmarked line) :
    lines.foldl segmented segments = (segments.1, segments.2 ++ lines) := by
  induction lines generalizing segments with
  | nil => simp
  | cons line rest ih =>
    obtain ⟨⟨hasks, hanswer⟩, hrest⟩ := forall_mem_cons.mp h
    rw [foldl_cons, ih _ hrest, segmented, hasks, hanswer]
    simp

/-- A front without a line break extends the first line only. -/
theorem splitOn_front {front rest first} (hfront : '\n' ∉ front) (h : rest.splitOn '\n' = first :: lines) :
    (front ++ rest).splitOn '\n' = (front ++ first) :: lines := by
  induction front with
  | nil => exact h
  | cons character front ih =>
    rw [mem_cons, not_or] at hfront
    rw [List.splitOn] at ih ⊢
    rw [cons_append, splitOnP_cons_eq_if_modifyHead, if_neg (by simpa using Ne.symm hfront.1), ih hfront.2]
    rfl

end

/-- An answered clarification: a trimmed request, a question of one line, and the labels of a locale. -/
structure Exchange where
  labels : Labels
  original : String
  question : String
  answer : String
  known : labels ∈ clarificationLabels
  trimmed : strip original = original
  oneLine : '\n' ∉ question.toList
  answered : (strip answer).isEmpty = false

namespace Exchange

variable (sent : Exchange)

def message : String := composed sent.labels sent.original sent.question sent.answer

theorem composeClarified_locale :
    composeClarified sent.original sent.question sent.answer sent.labels.1 = some sent.message := by
  rw [composeClarified, find_labels _ sent.known]
  rfl

theorem linesOf_message {first later} (h : linesOf (strip sent.answer) = first :: later) :
    linesOf sent.message = linesOf sent.original ++ [] ::
      labelling sent.labels.2.1 sent.question.toList :: labelling sent.labels.2.2 first :: later := by
  obtain ⟨hasked, hgiven⟩ := newline_labels _ sent.known
  have hquestion : '\n' ∉ labelling sent.labels.2.1 sent.question.toList := by
    simp [labelling, hasked, sent.oneLine]
  have hanswer := splitOn_front (show '\n' ∉ sent.labels.2.2.toList ++ [':', ' '] by simp [hgiven]) h
  rw [append_assoc, append_assoc] at hanswer
  rw [message, composed, sent.trimmed, linesOf, String.toList_ofList, splitOn_append_cons_self,
    ← nil_append ('\n' :: _), splitOn_append_cons_self_of_not_mem not_mem_nil,
    splitOn_append_cons_self_of_not_mem hquestion]
  exact congrArg (fun lines => _ ++ [] :: _ :: lines) hanswer

theorem joined_linesOf (text) : joined (linesOf text) = text := by
  rw [joined, linesOf, intercalate_splitOn, String.ofList_toList]

theorem authoredSegments_message (h : ∀ line ∈ (linesOf (strip sent.answer)).tail, Unmarked line) :
    authoredSegments sent.message = authoredSegments sent.original ++ [strip sent.answer] := by
  obtain ⟨first, later, hlines⟩ := exists_cons_of_ne_nil (splitOn_ne_nil '\n' (strip sent.answer).toList)
  change linesOf _ = _ at hlines
  rw [hlines, tail_cons] at h
  unfold authoredSegments
  rw [sent.linesOf_message hlines, foldl_append]
  generalize (linesOf sent.original).foldl segmented ([], []) = segments
  rw [← singleton_append, foldl_append,
    foldl_unmarked segments (forall_mem_singleton.mpr ⟨by decide, by decide⟩), foldl_cons, foldl_cons]
  obtain ⟨hasks, -, -⟩ := read_labelling sent.known sent.question.toList
  obtain ⟨-, hanswers, hanswer⟩ := read_labelling sent.known first
  simp only [segmented, hasks, hanswers, hanswer, Bool.false_eq_true, if_true, if_false]
  rw [foldl_unmarked _ h]
  have hjoined : strip (joined ([first] ++ later)) = strip sent.answer := by
    rw [singleton_append, ← hlines, joined_linesOf, strip_strip]
  simp only [shown, map_append, map_cons, map_nil, strip_joined_blank, hjoined, filter_append]
  have hempty : strip (joined []) = "" := rfl
  rw [hempty]
  simp [-String.isEmpty_eq_false_iff, sent.answered]

theorem clarifiedAnswer_message (hasked : sent.original.isEmpty = false) (hline : '\n' ∉ (strip sent.answer).toList) :
    clarifiedAnswer sent.message = some (sent.original, sent.question, strip sent.answer) := by
  obtain ⟨last, before, hlast⟩ := exists_cons_of_ne_nil
    (reverse_ne_nil_iff.mpr (splitOn_ne_nil '\n' sent.original.toList))
  change (linesOf sent.original).reverse = _ at hlast
  unfold clarifiedAnswer
  rw [sent.linesOf_message (splitOn_eq_singleton hline), reverse_append, hlast]
  change clarificationLabels.findSome? (clarifiedIn _ (joined (last :: before).reverse) _ _) = _
  rw [← hlast, reverse_reverse, joined_linesOf]
  have hown : clarifiedIn sent.message sent.original (labelling sent.labels.2.1 sent.question.toList)
      (labelling sent.labels.2.2 (strip sent.answer).toList) sent.labels =
        some (sent.original, sent.question, strip sent.answer) := by
    have hanswered := sent.answered
    rw [clarifiedIn, labelled_labelling, labelled_labelling]
    simp_all [sent.trimmed, strip_strip, composeClarified, find_labels _ sent.known, message, composed]
  obtain ⟨result, hresult⟩ := Option.isSome_iff_exists.mp
    (findSome?_isSome_iff.mpr ⟨_, sent.known, Option.isSome_of_eq_some hown⟩)
  obtain ⟨others, hothers, hread⟩ := exists_of_findSome?_eq_some hresult
  rcases clarifiedIn_other sent.known hothers _ _ _ _ with hnone | rfl
  · cases hnone.symm.trans hread
  · rw [hresult, ← hread, hown]

end Exchange

/-- What a person wrote is read back from the message composed with their answer, whatever the question says. -/
theorem only_the_persons_words (sent : Exchange) :
    ∃ message, composeClarified sent.original sent.question sent.answer sent.labels.1 = some message ∧
      ((∀ line ∈ (linesOf (strip sent.answer)).tail, Unmarked line) →
        authoredSegments message = authoredSegments sent.original ++ [strip sent.answer]) ∧
      (sent.original.isEmpty = false → '\n' ∉ (strip sent.answer).toList →
        clarifiedAnswer message = some (sent.original, sent.question, strip sent.answer)) :=
  ⟨sent.message, sent.composeClarified_locale, sent.authoredSegments_message, sent.clarifiedAnswer_message⟩

end ShimpzTeams.Clarification
