import OpeningHours.Hours.WrittenTime

/-!
# The wording of opening times

The patterns by which a text about opening times is read. All of them expect the normal form of the
text. Parts that are read further are kept under the slots named here.
-/

namespace OpeningHours

namespace Wording

open Pattern

/-! ## The text as a whole -/

/-- The part that makes `24時間` mean something else. -/
def limitSlot : Slot := 1

/-- Open around the clock; with the limiting part, a time before or a number of hours. -/
def aroundTheClock : Pattern :=
  (word "24時間" ||| (wordAnyCase "24h" ++ opt (wordAnyCase "ours")) |||
      anyWord ["終日", "常時開放"]) ++
    opt (keep limitSlot (anyWord ["前", "以内"]))

/-- A text that says nothing but that the facility is closed for the time being. -/
def fullyClosed : Pattern :=
  atStart ++ opt (anyWord ["現在", "当面", "当分", "しばらく", "一時", "臨時"]) ++
    opt (anyWord ["の間", "は"]) ++ opt (word "全面") ++
    anyWord ["休館", "休業", "休園", "休場", "休止", "閉鎖", "閉館", "閉園", "利用不可", "使用不可",
      "利用停止", "使用停止", "利用中止", "使用中止", "営業停止"] ++
    opt (anyWord ["中", "しています", "しております", "となります", "です"]) ++ atEnd

/-- Permanently occupied by one party. -/
def alwaysOccupied : Pattern :=
  (word "常時" ++ anyWord ["使用", "占用", "利用"] ++ opt (word "中")) |||
    anyWord ["占用中", "専用使用"]

/-- The reader is asked to inquire. -/
def inquiry : Pattern :=
  (opt (anyWord ["要", "お"]) ++ word "問" ++ opt (word "い") ++ word "合" ++ opt (word "わ") ++
      word "せ" ++ opt (word "ください")) |||
    anyWord ["要確認", "要相談"]

/-- A reservation is required. -/
def reservation : Pattern :=
  anyWord ["要予約", "予約制", "予約が必要", "予約必要", "事前予約", "完全予約"]

/-! ## Hotels -/

/-- The parts of a check-in or check-out time. -/
def hotelSlots : ClockSlots := ⟨1, 2, 3⟩

/-- What precedes the way into or out of a hotel. -/
def check : Pattern :=
  wordAnyCase "check" ++ opt (oneOf "- ")

/-- A time after one of the words for it. -/
def hotelTime (words : Pattern) : Pattern :=
  words ++ blanks ++ opt (word ":") ++ blanks ++ keep hotelSlots.hour oneOrTwoDigits ++
    word ":" ++ keep hotelSlots.minute (digit ++ digit)

/-- A check-in time. -/
def checkIn : Pattern :=
  hotelTime ((check ++ wordAnyCase "in") ||| word "チェックイン" |||
    (atWordEdge ++ wordAnyCase "in"))

/-- A check-out time. -/
def checkOut : Pattern :=
  hotelTime ((check ++ wordAnyCase "out") ||| word "チェックアウト" |||
    (atWordEdge ++ wordAnyCase "out"))

/-! ## Segments -/

/-- Words about closing, or an ordinal weekday. -/
def closureMention : Pattern :=
  anyWord ["休館", "休園", "休業", "休場", "休所", "定休"] ||| (opt (word "お") ++ word "休み") |||
    (word "第" ++ blanks ++ oneOf "12345一二三四五")

/-- The parts of a last admission. -/
def lastAdmissionSlots : ClockSlots := ⟨1, 2, 3⟩

/-- A last admission, or the opening of an admission time. -/
def lastAdmission : Pattern :=
  ((word "最終" ++ anyWord ["入場", "入館", "入園", "入室", "受付", "受入"]) |||
      (anyWord ["入場", "入館", "入園", "入室", "受付"] ++ opt (anyWord ["は", "締切"]))) ++
    blanks ++ opt (word ":") ++ blanks ++ clock lastAdmissionSlots ++ opt (word "まで")

/-- The parts of the start of a time range. -/
def startSlots : ClockSlots := ⟨1, 2, 3⟩

/-- The parts of the end of a time range. -/
def finishSlots : ClockSlots := ⟨4, 5, 6⟩

/-- The part that says that a range ends at sunset. -/
def sunsetSlot : Slot := 7

/-- The part that says that a range ends on the following day. -/
def nextDaySlot : Slot := 8

/-- A range of times. -/
def timeRange : Pattern :=
  clock startSlots ++ blanks ++ anyWord ["~", "-", "から"] ++ blanks ++
    ((keep sunsetSlot (word "日没" ||| (word "日の入" ++ opt (word "り"))) ++ opt (word "まで")) |||
      (opt (keep nextDaySlot ((word "翌" ++ opt (word "日")) ||| anyWord ["深夜", "夜中"])) ++
        blanks ++ clock finishSlots ++ opt (word "まで")))

end Wording

/-! ## Separators -/

/-- Whether the character ends a statement. -/
def isStatementMark (c : Char) : Bool :=
  "\n;。※".toList.contains c

/-- Whether the character ends a segment of a statement. -/
def isSegmentMark (c : Char) : Bool :=
  ",/、".toList.contains c

end OpeningHours
