import OpeningHours.ClosedDays.Rule
import OpeningHours.ClosedDays.Wording
import OpeningHours.Text.Pattern.Number

/-!
# Dates in a text about closed days

Dates and spans of dates name days of the year. `年末年始` names the break around the new year,
unless the text gives other dates. Dates that exist in no year are blanked out and read as nothing.
-/

namespace OpeningHours

open Wording

/-- The span of dates that a hit of `Closed.dateSpan` names. An end without a month lies in the
month of the start. -/
def Hit.dateSpan? (h : Hit) : Option DateSpan := do
  let start ← MonthDay.ofNumbers? (h.number 1) (h.number 2)
  let finish ← MonthDay.ofNumbers? ((h.number? 3).getD (h.number 1)) (h.number 4)
  return ⟨start, finish⟩

/-- The date that a hit of `Closed.oneDate` names. -/
def Hit.oneDate? (h : Hit) : Option MonthDay :=
  MonthDay.ofNumbers? (h.number 1) (h.number 2)

/-- The rule for days of the year, if there are any. -/
def datedRule? (days : List MonthDay) (spans : List DateSpan) : Option ClosureRule :=
  if days.isEmpty && spans.isEmpty then none else some (.dated days spans)

/-- The rule for the days of the year that the text names, and the text without them. -/
def extractDates (t : Text) : Option ClosureRule × Text :=
  let (spans, rest) := Closed.dateSpan.extract (fun _ h => some h.dateSpan?) t
  let (days, rest) := Closed.oneDate.extract (fun _ h => some h.oneDate?) rest
  let spans := spans.filterMap id
  let days := days.filterMap id
  let spans :=
    if Closed.yearEnd.occursIn rest && spans.isEmpty && days.isEmpty then [DateSpan.yearEnd]
    else spans
  (datedRule? days spans, Closed.yearEnd.blankOut rest)

end OpeningHours
