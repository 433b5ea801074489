import ShimpzTeams.Protocol.Notice

/-!
# Calendar dates, their ordinals, and the templates that write them

Dates count by their proleptic Gregorian ordinal from year 1 to 9999. A
template is literal text and date parts, each a whole-day offset from the run
date and a closed format of literal characters and tokens. The years, and the
months of a year, lie end to end on the count of days, so a date and its ordinal
determine each other, and so do a date and its ISO week.
-/

namespace ShimpzTeams.Routines

open StrictJson Protocol

def maxYear : Int := 9999

structure Date where
  year : Int
  month : Int
  day : Int
  deriving DecidableEq, Repr

def daysBeforeYear (year : Int) : Int :=
  (year - 1) * 365 + (year - 1) / 4 - (year - 1) / 100 + (year - 1) / 400

def daysBeforeMonth (year month : Int) : Int :=
  ((List.range (month - 1).toNat).map fun before => daysInMonth year (before + 1)).sum

/-- The proleptic Gregorian ordinal of a date, January 1 of year 1 being 1. -/
def ymdToOrd (year month day : Int) : Int := daysBeforeYear year + daysBeforeMonth year month + day

def daysInYear (year : Int) : Int := if isLeap year then 366 else 365

def countYears : Nat → Int → Int → Int × Int
  | 0, year, rest => (year, rest)
  | fuel + 1, year, rest =>
    if daysInYear year ≤ rest then countYears fuel (year + 1) (rest - daysInYear year)
    else (year, rest)

def countMonths (year : Int) : Nat → Int → Int → Int × Int
  | 0, month, rest => (month, rest)
  | fuel + 1, month, rest =>
    if daysInMonth year month ≤ rest then
      countMonths year fuel (month + 1) (rest - daysInMonth year month)
    else (month, rest)

def ordToYmd (ordinal : Int) : Date :=
  let offset := ordinal - 1
  let (year, rest) := countYears 400 (offset / 146097 * 400 + 1) (offset % 146097)
  let (month, rest) := countMonths year 12 1 rest
  ⟨year, month, rest + 1⟩

namespace Date

def new (year month day : Int) : Option Date :=
  if year < 1 || maxYear < year || month < 1 || 12 < month || day < 1 then none
  else if daysInMonth year month < day then none
  else some ⟨year, month, day⟩

/-- `date.toordinal()`. -/
def ordinal (date : Date) : Int := ymdToOrd date.year date.month date.day

/-- `date.fromordinal(ordinal)`, within the years a date may have. -/
def fromOrdinal (ordinal : Int) : Option Date :=
  if 1 ≤ ordinal && ordinal ≤ ymdToOrd maxYear 12 31 then some (ordToYmd ordinal) else none

/-- `date + timedelta(days=days)`. -/
def addDays (date : Date) (days : Int) : Option Date := fromOrdinal (date.ordinal + days)

/-- `date.weekday()`: 0 for Monday. -/
def weekday (date : Date) : Int := (date.ordinal + 6) % 7

/-- A number in at least `width` decimal digits. -/
def padded (width : Nat) (value : Int) : String :=
  let digits := (toString value).toList
  String.ofList (List.replicate (width - digits.length) '0' ++ digits)

/-- `date.isoformat()`. -/
def isoformat (date : Date) : String :=
  padded 4 date.year ++ "-" ++ padded 2 date.month ++ "-" ++ padded 2 date.day

def ofInstant [Platform] (instant : Int) (zone : Platform.Zone) : Option Date :=
  (Platform.civilAt zone instant).bind fun (year, month, day) => new year month day

end Date

/-- How far from the recording's date a written date still counts, in days. -/
def maxOffsetDays : Int := 31

def maxParts : Nat := 32

def maxFormatChars : Nat := 64

/-- Each language's month names, January first. -/
def months : List (String × List String) :=
  [("pt", ["janeiro", "fevereiro", "março", "abril", "maio", "junho", "julho", "agosto",
      "setembro", "outubro", "novembro", "dezembro"]),
    ("en", ["january", "february", "march", "april", "may", "june", "july", "august",
      "september", "october", "november", "december"]),
    ("es", ["enero", "febrero", "marzo", "abril", "mayo", "junio", "julio", "agosto",
      "septiembre", "octubre", "noviembre", "diciembre"]),
    ("fr", ["janvier", "février", "mars", "avril", "mai", "juin", "juillet", "août",
      "septembre", "octobre", "novembre", "décembre"]),
    ("de", ["januar", "februar", "märz", "april", "mai", "juni", "juli", "august",
      "september", "oktober", "november", "dezember"]),
    ("ar", ["يناير", "فبراير", "مارس", "أبريل", "مايو", "يونيو", "يوليو", "أغسطس",
      "سبتمبر", "أكتوبر", "نوفمبر", "ديسمبر"])]

def tokens : List String := ["d", "dd", "M", "MM", "yyyy", "mmmm", "Mmmm", "MMMM"]

/-- The tokens that write a month name. -/
def named : List String := ["mmmm", "Mmmm", "MMMM"]

def namesOf (language : String) : Option (List String) := months.lookup language

inductive Piece where
  | literal (text : List Char)
  | token (name : String)
  deriving DecidableEq

/-- The token a text starts with after its opening brace. -/
def tokenAt (rest : List Char) : Option String :=
  if rest.contains '}' then
    tokens.find? fun token => token.toList == rest.takeWhile fun character => character != '}'
  else none

def flush (literal : List Char) : List Piece := if literal.isEmpty then [] else [.literal literal]

/-- The pieces of a format after `skip` characters that a token already took. -/
def tokenizedFrom : Nat → List Char → List Char → List Piece
  | _, literal, [] => flush literal
  | skip + 1, literal, _ :: rest => tokenizedFrom skip literal rest
  | 0, literal, character :: rest =>
    if character == '{' then
      match tokenAt rest with
      | some token => flush literal ++ .token token :: tokenizedFrom (token.length + 1) [] rest
      | none => tokenizedFrom 0 (literal ++ [character]) rest
    else tokenizedFrom 0 (literal ++ [character]) rest

def tokenized (format : String) : List Piece := tokenizedFrom 0 [] format.toList

section

variable [Platform]

def capitalized (name : String) : String :=
  match name.toList with
  | [] => ""
  | first :: rest => String.ofList (Platform.toUppercase first ++ rest)

def cased (token name : String) : String :=
  if token == "mmmm" then Platform.lower name
  else if token == "Mmmm" then capitalized name
  else String.ofList (name.toList.flatMap Platform.toUppercase)

def writtenPiece (part : Value) (day : Date) : Piece → Option String
  | .literal text => some (String.ofList text)
  | .token token =>
    if named.contains token then
      ((string (fieldOf part "lang")).bind namesOf).bind fun names =>
        (names[(day.month - 1).toNat]?).map (cased token)
    else
      let value := if token.toList.head? == some 'd' then day.day
        else if token.toList.head? == some 'M' then day.month else day.year
      some (if token == "dd" || token == "MM" then Date.padded 2 value else toString value)

def writtenPart (part : Value) (runDate : Date) : Option String :=
  (smallInt (fieldOf part "days")).bind fun days =>
    (runDate.addDays days).bind fun day =>
      (string (fieldOf part "format")).bind fun format =>
        ((tokenized format).mapM (writtenPiece part day)).map String.join

def writtenItem (runDate : Date) : Value → Option String
  | .string literal => some literal
  | part => writtenPart part runDate

def render (parts : List Value) (runDate : Date) : Option String :=
  (parts.mapM (writtenItem runDate)).map String.join

/-- A run-clock value at a run's start: its date, or a template written for it. -/
def clockValue (source : Value) (instant : Int) (zone : Platform.Zone) : Option Value :=
  (Date.ofInstant instant zone).bind fun day =>
    if string (fieldOf source "format") == some "date" then some (text day.isoformat)
    else (render (elements (fieldOf source "parts")) day).map Value.string

end

def formatTokens (format : String) : Option (List String) :=
  let pieces := tokenized format
  if pieces.any fun piece =>
      match piece with
      | .literal text => text.contains '{' || text.contains '}'
      | .token _ => false then none
  else if format.isEmpty then none
  else some (pieces.filterMap fun piece =>
    match piece with
    | .literal _ => none
    | .token token => some token)

def datePart (part : Value) : Bool :=
  hasFields part ["days", "format", "lang"] &&
    whole (fieldOf part "days") (-maxOffsetDays) maxOffsetDays &&
    (string (fieldOf part "format")).any fun format =>
      format.length ≤ maxFormatChars &&
        (formatTokens format).any fun found =>
          !found.isEmpty &&
            if found.any named.contains then
              (string (fieldOf part "lang")).any fun language => (namesOf language).isSome
            else isNull (fieldOf part "lang")

def admittedParts : Bool → Bool → List Value → Bool
  | _, dated, [] => dated
  | previousText, dated, part :: rest =>
    match part with
    | .string literal => !literal.isEmpty && !previousText && admittedParts true dated rest
    | part => datePart part && admittedParts false true rest

/-- `admitted`: text and date parts, at least one date, no two texts adjacent. -/
def admittedTemplate (parts : Value) : Bool :=
  (array parts).any fun parts =>
    !parts.isEmpty && parts.length ≤ maxParts && admittedParts false false parts

def admittedClock (source : Value) : Bool :=
  if string (fieldOf source "format") == some "date" then (source.get "parts").isNone
  else string (fieldOf source "format") == some "text" && (source.get "parts").any admittedTemplate

/-- How a person reads each token. -/
def shownTokens : List (String × String) :=
  [("d", "D"), ("dd", "DD"), ("M", "M"), ("MM", "MM"), ("yyyy", "YYYY"), ("mmmm", "month"),
    ("Mmmm", "Month"), ("MMMM", "MONTH")]

def doubledBraces (literal : String) : List Char :=
  literal.toList.flatMap fun character =>
    if character == '{' || character == '}' then [character, character] else [character]

/-- One part of a template as a person reads it. -/
def shownPart (part : Value) : List Char :=
  match part with
  | .string literal => doubledBraces literal
  | part =>
    let form := (tokenized ((string (fieldOf part "format")).getD "")).flatMap fun piece =>
      match piece with
      | .literal text => text
      | .token token => ((shownTokens.lookup token).getD token).toList
    let language := match string (fieldOf part "lang") with
      | some language => '|' :: language.toList
      | none => []
    let days := (smallInt (fieldOf part "days")).getD 0
    let offset := if days == 0 then []
      else '|' :: (if 0 < days then ['+'] else []) ++ (toString days).toList
    '{' :: form ++ language ++ offset ++ ['}']

/-- The template as a person reads it, the same whatever the date. -/
def shown (parts : List Value) : String := String.ofList (parts.flatMap shownPart)

section

/-- Pieces laid end to end from the first on: where each begins, and how long it is. -/
structure Pieces (before size : Int → Int) : Prop where
  next : ∀ index, 1 ≤ index → before (index + 1) = before index + size index
  pos : ∀ index, 0 < size index

variable {before size : Int → Int} {index other rest : Int}

theorem Pieces.mono (h : Pieces before size) (hfirst : 1 ≤ index) (hle : index ≤ other) :
    before index ≤ before other := by
  induction other, hle using Int.leInduction with
  | base => exact le_refl _
  | succ last hlast ih =>
    have hnext := h.next last (hfirst.trans hlast)
    have hpos := h.pos last
    omega

/-- A position lies in one piece only. -/
theorem Pieces.unique (h : Pieces before size) {left right} (hindex : 1 ≤ index) (hother : 1 ≤ other)
    (hleft : 0 ≤ left ∧ left < size index) (hright : 0 ≤ right ∧ right < size other)
    (heq : before index + left = before other + right) : index = other ∧ left = right := by
  have hends := h.next index hindex
  have hotherEnds := h.next other hother
  rcases lt_trichotomy index other with hlt | rfl | hgt
  · have := h.mono (by omega) (Int.add_one_le_of_lt hlt)
    omega
  · exact ⟨rfl, by omega⟩
  · have := h.mono (by omega) (Int.add_one_le_of_lt hgt)
    omega

/-- A loop that leaves a piece while the rest reaches past it ends in the piece the position lies in,
when that is among those it may leave. -/
theorem Pieces.count (h : Pieces before size) (count : Nat → Int → Int → Int × Int)
    (hcount : ∀ fuel index rest, count (fuel + 1) index rest =
      if size index ≤ rest then count fuel (index + 1) (rest - size index) else (index, rest))
    (fuel : Nat) (hindex : 1 ≤ index) (hrest : 0 ≤ rest) (hfuel : before index + rest < before (index + fuel)) :
    ∃ last left, count fuel index rest = (last, left) ∧ index ≤ last ∧ last < index + fuel ∧
      (0 ≤ left ∧ left < size last) ∧ before last + left = before index + rest := by
  induction fuel generalizing index rest with
  | zero =>
    have hstays : index + ((0 : Nat) : Int) = index := by omega
    rw [hstays] at hfuel
    omega
  | succ fuel ih =>
    rw [hcount]
    split
    next hpast =>
      have hnext := h.next index hindex
      have hreach : before (index + 1) + (rest - size index) < before (index + 1 + fuel) := by
        rw [hnext, show index + 1 + (fuel : Int) = index + (fuel + 1 : Nat) by omega]
        omega
      obtain ⟨last, left, hends, hfirst, hlast, hleft, hposition⟩ := ih (by omega) (by omega) hreach
      exact ⟨last, left, hends, by omega, by omega, hleft, by omega⟩
    next hwithin => exact ⟨index, rest, rfl, le_refl _, by omega, ⟨hrest, by omega⟩, rfl⟩

end

theorem pieces_years : Pieces daysBeforeYear daysInYear where
  next year _ := by
    simp only [daysBeforeYear, daysInYear, isLeap, Bool.and_eq_true, Bool.or_eq_true, beq_iff_eq, bne_iff_ne]
    split <;> omega
  pos year := by
    unfold daysInYear
    split <;> decide

theorem pieces_months (year : Int) : Pieces (daysBeforeMonth year) (daysInMonth year) where
  next month hmonth := by
    obtain ⟨count, rfl⟩ : ∃ count : Nat, month = count + 1 := ⟨(month - 1).toNat, by omega⟩
    simp [daysBeforeMonth, List.range_succ]
  pos month := by
    unfold daysInMonth
    repeat' split
    all_goals decide

theorem daysBeforeMonth_end (year : Int) : daysBeforeMonth year 13 = daysInYear year := by
  have hrange : (13 - 1 : Int).toNat = 12 := rfl
  simp only [daysBeforeMonth, hrange, daysInYear, daysInMonth, List.range, List.range.loop]
  cases isLeap year <;> rfl

namespace Date

variable {date other : Date} {ordinal : Int}

/-- A date of the calendar, however late its year. -/
structure Formed (date : Date) : Prop where
  year : 1 ≤ date.year
  month : 1 ≤ date.month ∧ date.month ≤ 12
  day : 1 ≤ date.day ∧ date.day ≤ daysInMonth date.year date.month

/-- A valid date of the years 1 to 9999. -/
structure Valid (date : Date) : Prop extends Formed date where
  last : date.year ≤ maxYear

theorem Formed.dayOfYear (h : date.Formed) : 0 ≤ daysBeforeMonth date.year date.month + (date.day - 1) ∧
      daysBeforeMonth date.year date.month + (date.day - 1) < daysInYear date.year := by
  obtain ⟨-, hmonth, hday⟩ := h
  have hnext := (pieces_months date.year).next date.month hmonth.1
  have hstart := (pieces_months date.year).mono (le_refl _) hmonth.1
  have hend := (pieces_months date.year).mono (by omega : 1 ≤ date.month + 1) (by omega : date.month + 1 ≤ 13)
  have hfirst : daysBeforeMonth date.year 1 = 0 := rfl
  rw [daysBeforeMonth_end] at hend
  omega

theorem Formed.eq_of_ordinal_eq (h : date.Formed) (hother : other.Formed) (heq : date.ordinal = other.ordinal) :
    date = other := by
  unfold Date.ordinal ymdToOrd at heq
  obtain ⟨hyear, hdays⟩ := pieces_years.unique h.year hother.year h.dayOfYear hother.dayOfYear (by omega)
  obtain ⟨year, month, day⟩ := date
  obtain ⟨_, otherMonth, otherDay⟩ := other
  dsimp only at hyear hdays
  subst hyear
  obtain ⟨-, hmonth, hday⟩ := h
  obtain ⟨-, hotherMonth, hotherDay⟩ := hother
  dsimp only at hmonth hday hotherMonth hotherDay
  obtain ⟨rfl, hsame⟩ := (pieces_months year).unique hmonth.1 hotherMonth.1 (by omega) (by omega) hdays
  obtain rfl : day = otherDay := by omega
  rfl

/-- The loops find a date of the calendar with the ordinal they were given. -/
theorem ordToYmd_formed (h : 1 ≤ ordinal) : (ordToYmd ordinal).Formed ∧ (ordToYmd ordinal).ordinal = ordinal := by
  have hcycle (count : Int) : daysBeforeYear (count * 400 + 1) = count * 146097 := by
    unfold daysBeforeYear
    omega
  have hstart := hcycle ((ordinal - 1) / 146097)
  have hend := hcycle ((ordinal - 1) / 146097 + 1)
  obtain ⟨year, days, hyears, hfirst, -, hdays, hposition⟩ :=
    pieces_years.count countYears (fun _ _ _ => rfl) 400 (show 1 ≤ (ordinal - 1) / 146097 * 400 + 1 by omega)
      (show 0 ≤ (ordinal - 1) % 146097 by omega) (by
        rw [show (ordinal - 1) / 146097 * 400 + 1 + (400 : Nat) = ((ordinal - 1) / 146097 + 1) * 400 + 1 by omega]
        omega)
  obtain ⟨month, day, hmonths, hmonth, hlast, hday, hwithin⟩ :=
    (pieces_months year).count (countMonths year) (fun _ _ _ => rfl) 12 (le_refl 1) hdays.1 (by
      rw [show (1 : Int) + (12 : Nat) = 13 from rfl, daysBeforeMonth_end]
      exact lt_of_eq_of_lt (Int.zero_add _) hdays.2)
  have hdate : ordToYmd ordinal = ⟨year, month, day + 1⟩ := by
    simp only [ordToYmd, hyears, hmonths]
  have hbefore : daysBeforeMonth year 1 = 0 := rfl
  rw [hdate]
  refine ⟨⟨by dsimp only; omega, by dsimp only; omega, by dsimp only; omega⟩, ?_⟩
  unfold Date.ordinal ymdToOrd
  dsimp only
  omega

theorem Formed.one_le_ordinal (h : date.Formed) : 1 ≤ date.ordinal := by
  have hstart := pieces_years.mono (le_refl _) h.year
  have hdays := h.dayOfYear
  have hfirst : daysBeforeYear 1 = 0 := rfl
  unfold Date.ordinal ymdToOrd
  omega

theorem Formed.ordToYmd_ordinal (h : date.Formed) : ordToYmd date.ordinal = date := by
  obtain ⟨hformed, hordinal⟩ := ordToYmd_formed h.one_le_ordinal
  exact hformed.eq_of_ordinal_eq h hordinal

/-- The ordinals of the years a date may have are those to the last day of the last year. -/
theorem Formed.year_le_iff (h : date.Formed) : date.year ≤ maxYear ↔ date.ordinal ≤ ymdToOrd maxYear 12 31 := by
  have hlast : ymdToOrd maxYear 12 31 = daysBeforeYear (maxYear + 1) := rfl
  have hdays := h.dayOfYear
  have hnext := pieces_years.next date.year h.year
  rw [hlast]
  unfold Date.ordinal ymdToOrd
  constructor
  · intro hle
    have hend := pieces_years.mono (by have := h.year; omega : 1 ≤ date.year + 1) (Int.add_le_add_right hle 1)
    omega
  · intro hle
    by_contra hlate
    have hstart := pieces_years.mono (by decide : (1 : Int) ≤ maxYear + 1) (by omega : maxYear + 1 ≤ date.year)
    omega

theorem fromOrdinal_eq_some : fromOrdinal ordinal = some date ↔ date.Valid ∧ date.ordinal = ordinal := by
  simp only [fromOrdinal, Bool.and_eq_true, decide_eq_true_eq]
  constructor
  · intro h
    split at h
    next hrange =>
      cases h
      obtain ⟨hformed, hordinal⟩ := ordToYmd_formed hrange.1
      exact ⟨⟨hformed, hformed.year_le_iff.mpr (hordinal.symm ▸ hrange.2)⟩, hordinal⟩
    next => cases h
  · rintro ⟨hvalid, rfl⟩
    obtain ⟨hformed, hyear⟩ := hvalid
    rw [if_pos ⟨hformed.one_le_ordinal, hformed.year_le_iff.mp hyear⟩, hformed.ordToYmd_ordinal]

def tomorrow (date : Date) : Date :=
  if date.day < daysInMonth date.year date.month then { date with day := date.day + 1 }
  else if date.month < 12 then ⟨date.year, date.month + 1, 1⟩
  else ⟨date.year + 1, 1, 1⟩

theorem Formed.ordinal_tomorrow (h : date.Formed) : date.tomorrow.ordinal = date.ordinal + 1 := by
  obtain ⟨hyear, hmonth, hday⟩ := h
  have hnext := (pieces_months date.year).next date.month hmonth.1
  have hfirst : daysBeforeMonth (date.year + 1) 1 = 0 := rfl
  have hyears := pieces_years.next date.year hyear
  rw [← daysBeforeMonth_end] at hyears
  unfold tomorrow Date.ordinal ymdToOrd
  split
  next =>
    dsimp only
    omega
  next hlast =>
    split
    next =>
      dsimp only
      omega
    next hdecember =>
      have htwelve : date.month + 1 = 13 := by omega
      rw [htwelve] at hnext
      dsimp only
      omega

end Date

/-- `iso_to_ymd`: the date of an ISO year, week and weekday. -/
def isoToYmd (year week day : Int) : Option Date :=
  let first := (Date.mk year 1 1).weekday
  if !(1 ≤ year && year ≤ maxYear) then none
  else if (week ≤ 0 || 53 ≤ week) && !(week == 53 && (first == 3 || (first == 2 && isLeap year))) then none
  else if !(1 ≤ day && day ≤ 7) then none
  else
    let firstDay := ymdToOrd year 1 1
    let week1Monday := firstDay - (firstDay + 6) % 7 + (if 3 < (firstDay + 6) % 7 then 7 else 0)
    some (ordToYmd (week1Monday + (week - 1) * 7 + day - 1))

namespace Date

variable {date : Date}

/-- The Thursday of a date's week, whose year is the week's year. -/
def thursday (date : Date) : Int := date.ordinal - date.weekday + 3

def isoYear (date : Date) : Int := (ordToYmd date.thursday).year

/-- The week's number: its Thursday is that many Thursdays into the week's year. -/
def isoWeek (date : Date) : Int := (date.thursday - ymdToOrd date.isoYear 1 1) / 7 + 1

theorem Valid.isoToYmd (h : date.Valid) : isoToYmd date.isoYear date.isoWeek (date.weekday + 1) = some date := by
  obtain ⟨hformed, hyear⟩ := h
  have hone := hformed.one_le_ordinal
  have hlast := hformed.year_le_iff.mp hyear
  have hend : ymdToOrd maxYear 12 31 = 3652059 := rfl
  have hweekday : date.weekday = (date.ordinal + 6) % 7 := rfl
  have hthursday : date.thursday = date.ordinal - date.weekday + 3 := rfl
  -- The first day of the calendar is a Monday and its last a Friday, so no week's Thursday is outside.
  have hfirst : 1 ≤ date.thursday := by omega
  have hwithin : date.thursday ≤ ymdToOrd maxYear 12 31 := by omega
  obtain ⟨hthursdayFormed, hordinal⟩ := ordToYmd_formed hfirst
  have hisoYear : date.isoYear = (ordToYmd date.thursday).year := rfl
  have hdays := hthursdayFormed.dayOfYear
  have hisoLast := hthursdayFormed.year_le_iff.mpr (hordinal.symm ▸ hwithin)
  have hisoFirst := hthursdayFormed.year
  have hjanuary : ymdToOrd date.isoYear 1 1 = daysBeforeYear date.isoYear + 1 := by
    unfold ymdToOrd
    rw [show daysBeforeMonth date.isoYear 1 = 0 from rfl, Int.add_zero]
  unfold Date.ordinal ymdToOrd at hordinal
  rw [← hisoYear] at hordinal hdays hisoLast hisoFirst
  have hweek : date.isoWeek = (date.thursday - ymdToOrd date.isoYear 1 1) / 7 + 1 := rfl
  have hnewYear : (Date.mk date.isoYear 1 1).weekday = (ymdToOrd date.isoYear 1 1 + 6) % 7 := rfl
  have hlength : daysInYear date.isoYear = if isLeap date.isoYear then 366 else 365 := rfl
  rw [Routines.isoToYmd, if_neg, if_neg, if_neg]
  · have hposition : ymdToOrd date.isoYear 1 1 - (ymdToOrd date.isoYear 1 1 + 6) % 7 +
        (if 3 < (ymdToOrd date.isoYear 1 1 + 6) % 7 then 7 else 0) + (date.isoWeek - 1) * 7 +
          (date.weekday + 1) - 1 = date.ordinal := by
      split <;> omega
    dsimp only
    rw [hposition, hformed.ordToYmd_ordinal]
  · simp only [Bool.not_eq_true', Bool.not_eq_false, Bool.and_eq_true, decide_eq_true_eq]
    omega
  · simp only [Bool.and_eq_true, Bool.or_eq_true, Bool.not_eq_true', Bool.and_eq_false_iff, Bool.or_eq_false_iff,
      decide_eq_true_eq, beq_eq_false_iff_ne]
    rintro ⟨hweekOut, hnot⟩
    cases hleap : isLeap date.isoYear <;> rw [hleap] at hlength hnot <;> simp at hlength hnot <;> omega
  · simp only [Bool.not_eq_true', Bool.not_eq_false, Bool.and_eq_true, decide_eq_true_eq]
    exact ⟨hisoFirst, hisoLast⟩

end Date

/-- A date of the years 1 to 9999 and its ordinal determine each other: each ordinal of that range is
one date's, consecutive days have consecutive ordinals, and the date of an ordinal, of a year's day
and of an ISO week is the date it was read from. -/
theorem dates_count_by_ordinals :
    (∀ date : Date, date.Valid → Date.fromOrdinal date.ordinal = some date ∧
      date.tomorrow.ordinal = date.ordinal + 1 ∧
      ordToYmd (ymdToOrd date.year date.month date.day) = date ∧
      isoToYmd date.isoYear date.isoWeek (date.weekday + 1) = some date) ∧
    ∀ ordinal, 1 ≤ ordinal → ordinal ≤ ymdToOrd maxYear 12 31 →
      ∃ date : Date, date.Valid ∧ Date.fromOrdinal ordinal = some date ∧ date.ordinal = ordinal ∧
        ordToYmd ordinal = date ∧ ymdToOrd date.year date.month date.day = ordinal := by
  constructor
  · intro date hvalid
    exact ⟨Date.fromOrdinal_eq_some.mpr ⟨hvalid, rfl⟩, hvalid.toFormed.ordinal_tomorrow,
      hvalid.toFormed.ordToYmd_ordinal, hvalid.isoToYmd⟩
  · intro ordinal hfirst hlast
    have hread : Date.fromOrdinal ordinal = some (ordToYmd ordinal) :=
      if_pos (by simp only [hfirst, hlast, decide_true, Bool.and_self])
    obtain ⟨hvalid, hordinal⟩ := Date.fromOrdinal_eq_some.mp hread
    exact ⟨ordToYmd ordinal, hvalid, hread, hordinal, rfl, hordinal⟩

end ShimpzTeams.Routines
