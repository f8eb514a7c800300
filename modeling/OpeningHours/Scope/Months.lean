import OpeningHours.Calendar.MonthRange
import OpeningHours.Text.Pattern.Number

/-!
# Months that a statement is about

Statements scope themselves to seasons with month ranges (`4月~10月`, `11~3月`) and single months
(`8月`). A month with a day behind it (`5月5日`) is a date and stays in the text. So does a single
month that does not exist; a range with such a month is blanked out but read as nothing.
-/

namespace OpeningHours

namespace Wording

open Pattern

/-- A range of months, its numbers kept under 1 and 2. -/
def monthRange : Pattern :=
  keep 1 oneOrTwoDigits ++ opt (word "月") ++ blanks ++ word "~" ++ blanks ++
    keep 2 oneOrTwoDigits ++ word "月" ++ opt (word "末") ++ opt (word "まで")

/-- A month, its number kept under 1, and the day behind it, if any, under 2. -/
def oneMonth : Pattern :=
  keep 1 oneOrTwoDigits ++ word "月" ++ opt (keep 2 (oneOrTwoDigits ++ word "日"))

end Wording

/-- The range that a hit of `Wording.monthRange` names. -/
def Hit.monthRange? (h : Hit) : Option MonthRange :=
  MonthRange.ofMonths? (h.number 1) (h.number 2)

/-- The month that a hit of `Wording.oneMonth` names, unless it is a date. -/
def Hit.oneMonth? (h : Hit) : Option MonthRange :=
  if h.has 2 then none else MonthRange.single? (h.number 1)

/-- The months that the text is about and the text without these words. -/
def extractMonths (t : Text) : List MonthRange × Text :=
  let (ranges, rest) := Wording.monthRange.extract (fun _ h => some h.monthRange?) t
  let (months, rest) := Wording.oneMonth.extract (fun _ h => h.oneMonth?) rest
  (ranges.filterMap id ++ months, rest)

end OpeningHours
