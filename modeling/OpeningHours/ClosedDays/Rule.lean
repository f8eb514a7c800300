import OpeningHours.Calendar.MonthDay
import OpeningHours.Holiday.Query

/-!
# Rules for closed days

A rule closes a facility on certain dates: on weekdays, on days of every month, on the n-th weekday
of every month, or on days of the year. The first three kinds recur, and they may shift: a date
that the rule would close stays open if it is a holiday, and the date after it closes instead. Only
the date before is consulted, so a run of holidays shifts by one day.
-/

namespace OpeningHours

/-- A rule for closed days. -/
inductive ClosureRule where
  /-- Closed on the weekdays. It may close on holidays too, or never close on its weekdays if they
  are holidays. -/
  | weekly (weekdays : WeekdaySet) (onHolidaysToo shifts exceptHolidays : Bool)
  /-- Closed on the days of every month. -/
  | monthly (days : List Nat) (shifts : Bool)
  /-- Closed on the weekday of every month that has one of the ordinal numbers. -/
  | ordinal (ordinals : List Nat) (weekday : Weekday) (shifts : Bool)
  /-- Closed on days of the year. -/
  | dated (days : List MonthDay) (spans : List DateSpan)
  deriving DecidableEq, Repr

namespace ClosureRule

/-- Which weekday of its kind the date is in its month: 1 for the days 1 to 7 and so on. -/
def ordinalInMonth (date : Date) : Nat :=
  (date.day - 1) / 7 + 1

/-- Whether the date is one that the rule closes, holidays and shifting aside. -/
def triggers : ClosureRule → Date → Bool
  | .weekly weekdays _ _ _, date => weekdays.contains date.weekday
  | .monthly days _, date => days.contains date.day
  | .ordinal ordinals weekday _, date =>
    date.weekday == weekday && ordinals.contains (ordinalInMonth date)
  | .dated days spans, date =>
    let day := MonthDay.ofDate date
    days.contains day || spans.any (·.includes day)

/-- Whether closing was carried over from the date before. -/
def carried (trigger : Date → Bool) (date : Date) : HolidayQuery Bool :=
  match date.prev? with
  | none => pure false
  | some yesterday => .onlyIf (trigger yesterday) (.isHoliday yesterday)

/-- Whether the date is closed by a condition on dates that may shift. -/
def shifted (trigger : Date → Bool) (shifts : Bool) (date : Date) : HolidayQuery Bool :=
  if trigger date then (!·) <$> HolidayQuery.onlyIf shifts (.isHoliday date)
  else .onlyIf shifts (carried trigger date)

/-- Whether the rule closes the date. -/
def closes (r : ClosureRule) (date : Date) : HolidayQuery Bool :=
  match r with
  | .weekly _ onHolidaysToo shifts exceptHolidays => do
    if ← .onlyIf onHolidaysToo (.isHoliday date) then return true
    if ← .onlyIf (exceptHolidays && r.triggers date) (.isHoliday date) then return false
    shifted r.triggers shifts date
  | .monthly _ shifts => shifted r.triggers shifts date
  | .ordinal _ _ shifts => shifted r.triggers shifts date
  | .dated _ _ => pure (r.triggers date)

/-! ## Under a calendar of holidays -/

theorem under_carried (holidays : HolidayCalendar) (trigger : Date → Bool) (date : Date) :
    (carried trigger date).under holidays =
      date.prev?.any fun yesterday => trigger yesterday && holidays yesterday := by
  rw [carried]
  cases date.prev? <;> simp

theorem under_shifted (holidays : HolidayCalendar) (trigger : Date → Bool) (shifts : Bool)
    (date : Date) :
    (shifted trigger shifts date).under holidays =
      if trigger date then !(shifts && holidays date)
      else shifts && date.prev?.any fun yesterday => trigger yesterday && holidays yesterday := by
  rw [shifted]
  split <;> simp [under_carried]

end ClosureRule

end OpeningHours
