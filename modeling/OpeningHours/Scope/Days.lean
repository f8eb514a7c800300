import OpeningHours.Calendar.Weekday
import OpeningHours.Text.Pattern.Basic

/-!
# Days that a statement is about

Statements about hours and about closed days scope themselves to days in the same words: weekdays
(`月~金`, `土日`, `平日`), public holidays (`祝日`, `祝日を除く`) and every day (`毎日`).
`extractDays` reads these words in a fixed order of passes. Each pass blanks out what it reads, so
that a later one sees the rest only, and yields mentions of days. The mentions add up to a
`DayScope`.

A weekday kanji counts only where it stands on its own: the `月` of `毎月` and the `日` of `翌日`
are parts of other words and stay in the text.
-/

namespace OpeningHours

/-! ## Scopes and mentions -/

/-- What a statement says about public holidays. -/
inductive HolidayMark where
  | unspecified
  | included
  | excluded
  deriving DecidableEq, Repr

/-- The days that a statement is about. -/
structure DayScope where
  weekdays : WeekdaySet := .empty
  holidays : HolidayMark := .unspecified
  everyDay : Bool := false
  deriving DecidableEq, Repr

/-- One mention of days. -/
inductive DayMention where
  | weekdays (days : WeekdaySet)
  | everyDay
  | holidays
  | noHolidays
  | sundaysAndHolidays
  deriving DecidableEq, Repr

namespace DayScope

/-- The scope with one more mention. A bare mention of holidays includes them unless an earlier
mention has settled the matter. -/
def add (s : DayScope) : DayMention → DayScope
  | .weekdays days => { s with weekdays := s.weekdays.union days }
  | .everyDay => { s with everyDay := true }
  | .holidays =>
    { s with holidays := if s.holidays = .unspecified then .included else s.holidays }
  | .noHolidays => { s with holidays := .excluded }
  | .sundaysAndHolidays =>
    { s with weekdays := s.weekdays.insert .sun, holidays := .included }

/-- The scope that the mentions add up to, if there are any. -/
def ofMentions? (mentions : List DayMention) : Option DayScope :=
  if mentions.isEmpty then none else some (mentions.foldl add {})

/-- Both scopes together. What the second says about holidays wins over the first. -/
def merge (a b : DayScope) : DayScope :=
  { weekdays := a.weekdays.union b.weekdays
    holidays := if b.holidays = .unspecified then a.holidays else b.holidays
    everyDay := a.everyDay || b.everyDay }

/-- The scope added to one that may be missing. -/
def mergeInto (a : Option DayScope) (b : DayScope) : DayScope :=
  match a with
  | none => b
  | some a => a.merge b

end DayScope

/-! ## Wording -/

namespace Wording

open Pattern

/-- The words for public holidays. -/
def holiday : Pattern :=
  anyWord ["祝祭日", "祝休日", "祝日", "休日", "祝"]

/-- Holidays excluded, as in `祝日を除く`. -/
def exceptHolidays : Pattern :=
  holiday ++ opt (word "・休日") ++ opt (word "を") ++ word "除く"

/-- The ending of a spelled-out weekday. -/
def weekdayEnding : Pattern :=
  anyWord ["曜日", "曜"]

/-- Sundays and holidays only, as in `日祝のみ`. -/
def onlySundaysAndHolidays : Pattern :=
  word "日" ++ opt weekdayEnding ++ opt (oneOf "・,") ++
    anyWord ["祝祭日", "祝休日", "祝日", "祝"] ++ word "のみ"

/-- Words for several days at once. -/
def dayGroup : Pattern :=
  anyWord ["平日", "週末", "毎日", "全日"]

/-- A weekday, its kanji kept under `slot`. -/
def weekday (slot : Slot) : Pattern :=
  keep slot (one Weekday.isKanji) ++ opt weekdayEnding

/-- A single weekday. -/
def oneWeekday : Pattern :=
  weekday 1

/-- A range of weekdays. -/
def weekdayRange : Pattern :=
  weekday 1 ++ blanks ++ word "~" ++ blanks ++ weekday 2

end Wording

/-! ## Weekdays that stand on their own -/

/-- Whether a weekday may follow the character. -/
def mayPrecedeWeekday (c : Char) : Bool :=
  Text.isBlank c || Weekday.isKanji c || "・,、/:;()~-週はとやび".toList.contains c

/-- Whether the character may follow a weekday without an ending. -/
def mayFollowWeekday (c : Char) : Bool :=
  Text.isBlank c || c.isDigit || Weekday.isKanji c ||
    "・,、/:;()~-はとやのにも及休祝".toList.contains c

/-- Whether the text ends in a spelled-out weekday. -/
def endsSpelledOut (t : Text) : Bool :=
  "曜".toList.isSuffixOf t || "曜日".toList.isSuffixOf t

/-- Whether the hit after the character `before` names weekdays rather than being a part of other
words. -/
def standsAlone (before : Option Char) (h : Hit) : Bool :=
  before.all mayPrecedeWeekday && (endsSpelledOut h.taken || h.rest.head?.all mayFollowWeekday)

/-- The weekday whose kanji is kept under `slot`. -/
def Hit.weekday? (h : Hit) (slot : Slot) : Option Weekday :=
  (h.part slot).head?.bind Weekday.ofKanji?

/-! ## The passes -/

/-- One pass over a text: the mentions it reads, and the text with these blanked out. -/
abbrev DayPass := Text → List DayMention × Text

/-- A pass that reads every hit of a pattern as the same mention. -/
def DayPass.always (p : Pattern) (mention : DayMention) : DayPass :=
  p.extract fun _ _ => some mention

/-- The pass for words that name several days. -/
def DayPass.groups : DayPass :=
  Wording.dayGroup.extract fun _ h => some <|
    if h.taken = "平日".toList then .weekdays .workdays
    else if h.taken = "週末".toList then .weekdays .weekend
    else .everyDay

/-- The pass for ranges of weekdays that stand on their own. -/
def DayPass.weekdayRanges : DayPass :=
  Wording.weekdayRange.extract fun before h =>
    if standsAlone before h then
      match h.weekday? 1, h.weekday? 2 with
      | some first, some last => some (.weekdays (.range first last))
      | _, _ => none
    else none

/-- The pass for single weekdays that stand on their own. -/
def DayPass.singleWeekdays : DayPass :=
  Wording.oneWeekday.extract fun before h =>
    if standsAlone before h then (h.weekday? 1).map fun day => .weekdays (.single day) else none

/-- The passes in their order. -/
def dayPasses : List DayPass :=
  [.always Wording.exceptHolidays .noHolidays,
    .always Wording.onlySundaysAndHolidays .sundaysAndHolidays,
    .groups,
    .always Wording.holiday .holidays,
    .weekdayRanges,
    .singleWeekdays]

/-- The mentions that the passes read one after another, and the text that they leave. -/
def readDays : List DayPass → Text → List DayMention × Text
  | [], t => ([], t)
  | pass :: passes, t =>
    let (mentions, rest) := pass t
    let (more, rest) := readDays passes rest
    (mentions ++ more, rest)

/-- The days that the text is about, if it says so, and the text without these words. -/
def extractDays (t : Text) : Option DayScope × Text :=
  let (mentions, rest) := readDays dayPasses t
  (DayScope.ofMentions? mentions, rest)

end OpeningHours
