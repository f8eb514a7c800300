import OpeningHours.Scope.Days

/-!
# The wording of closed days

The patterns by which a text about closed days is read. All of them expect the normal form of the
text. Parts that are read further are kept under numbered slots, as each pattern says.
-/

namespace OpeningHours.Wording.Closed

open Pattern

/-! ## Statements about the text as a whole -/

/-- There are no regular closed days. -/
def never : Pattern :=
  anyWord ["年中無休", "無休"] |||
    (anyWord ["定休日", "休館日", "休業日", "休園日", "休み"] ++ opt (word "は") ++
      anyWord ["なし", "無し", "ありません"]) |||
    (atStart ++ anyWord ["なし", "無し"] ++ atEnd)

/-- Closed days are irregular. -/
def irregular : Pattern :=
  (word "不定休" ++ opt (word "日")) |||
    (word "不定期" ++ opt (anyWord ["休館", "休業", "休園"])) |||
    (word "臨時" ++ opt (anyWord ["休館", "休業", "休園", "休"]) ++ opt (word "日")) |||
    anyWord ["施設により異なる", "施設による", "時期により異なる"]

/-! ## Holidays -/

/-- Open on holidays and closed on the day after instead, as in `祝日の場合は翌日`. -/
def shift : Pattern :=
  opt (word "(") ++ holiday ++ opt (word "・振替休日") ++ opt (oneOf "のにと") ++
    opt (anyWord ["あたる", "当たる", "重なる"]) ++ anyWord ["場合", "とき", "時"] ++
    opt (word "は") ++ opt (oneOf ",、") ++
    opt (anyWord ["開館", "開園", "開場", "営業", "開所"] ++ word "し" ++ opt (word "て") ++
      opt (oneOf ",、")) ++
    opt (word "その") ++ word "翌" ++ anyWord ["日", "平日", "開館日"] ++
    opt (anyWord ["に振替", "休館", "休業", "休園", "休み"]) ++ opt (word ")")

/-- Open on holidays, as in `祝日は開館`. -/
def openOnHolidays : Pattern :=
  opt (word "(") ++ holiday ++
    opt (anyWord ["の場合", "のとき", "の時", "と重なる場合", "にあたる場合"]) ++ word "は" ++
    anyWord ["開館", "開園", "開場", "営業", "開所"] ++ opt (anyWord ["します", "いたします"]) ++
    opt (word ")")

/-- Closed on the day after a holiday, which no rule expresses. -/
def dayAfterHoliday : Pattern :=
  holiday ++ word "の翌日"

/-! ## Days of the year -/

/-- A month and a day of it, the numbers kept under the given slots. -/
def dateAt (month day : Slot) : Pattern :=
  keep month oneOrTwoDigits ++ (word "/" ||| word "月") ++ keep day oneOrTwoDigits ++
    opt (word "日")

/-- A span of dates: a start under 1 and 2, and an end under 3 and 4, whose month may be missing. -/
def dateSpan : Pattern :=
  dateAt 1 2 ++ blanks ++ word "~" ++ blanks ++
    opt (keep 3 oneOrTwoDigits ++ (word "/" ||| word "月")) ++ keep 4 oneOrTwoDigits ++
    opt (word "日")

/-- A date, under 1 and 2. -/
def oneDate : Pattern :=
  dateAt 1 2

/-- The break around the new year. -/
def yearEnd : Pattern :=
  word "年末年始"

/-! ## Recurring days -/

/-- Words that announce closed days without saying which. -/
def label : Pattern :=
  anyWord ["定休日", "休館日", "休園日", "休業日", "休所日", "休場日", "点検日", "整備日", "清掃日",
    "毎週"]

/-- What stands between the members of a list. -/
def listMark : Pattern :=
  oneOf "・,、" ||| word "と" ||| word "及び"

/-- An ordinal number for weekdays. -/
def ordinalDigit : Pattern :=
  oneOf "12345一二三四五"

/-- Ordinal weekdays, as in `第2・第4月曜日`: the ordinals under 1, the weekday under 2. -/
def ordinalWeekday : Pattern :=
  word "第" ++
    keep 1 (ordinalDigit ++ star (blanks ++ listMark ++ blanks ++ opt (word "第") ++ ordinalDigit)) ++
    blanks ++ keep 2 (one Weekday.isKanji) ++ opt weekdayEnding

/-- A kanji of a numeral for days. -/
def kanjiDigit : Pattern :=
  oneOf "〇一二三四五六七八九十"

/-- The number of a day, in one or two digits or up to three kanji. -/
def dayNumber : Pattern :=
  oneOrTwoDigits ||| (kanjiDigit ++ opt (kanjiDigit ++ opt kanjiDigit))

/-- Days of every month, as in `毎月5日・20日`, the list under 1. -/
def monthlyDays : Pattern :=
  word "毎月" ++ blanks ++
    keep 1 (dayNumber ++ opt (word "日") ++
      star (blanks ++ listMark ++ blanks ++ dayNumber ++ opt (word "日")))

/-- Days without a month, as in `5日・20日`, the list under 1. -/
def bareDays : Pattern :=
  keep 1 (oneOrTwoDigits ++ word "日" ++
    star (blanks ++ (oneOf "・,、" ||| word "と") ++ blanks ++ oneOrTwoDigits ++ word "日"))

/-- Words that say no more than that the facility is closed. -/
def closureWord : Pattern :=
  (opt (word "お") ++ word "休み") |||
    anyWord ["休館", "休業", "休園", "休場", "休所", "閉館", "閉園", "定休", "あり", "有り", "です",
      "となります", "など", "毎月"]

end OpeningHours.Wording.Closed
