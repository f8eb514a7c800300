import OpeningHours.Calendar.Moment
import OpeningHours.Calendar.MonthRange
import OpeningHours.Holiday.Query
import OpeningHours.Text.Basic

/-!
# Opening windows

A window is a recurring stretch of time on the days that it applies to: from its start up to but
not including its end, or to an end that the text leaves open (`9:00~日没`). A window may run past
midnight; the part after midnight belongs to the day on which the window started.

On a public holiday a window applies exactly if it includes holidays, whatever the weekday.
-/

namespace OpeningHours

/-- A recurring opening window. -/
structure TimeWindow where
  start : ClockTime
  /-- The end; missing where the text gives no fixed one. -/
  finish : Option ClockTime
  /-- The window ends on the following day. -/
  crossesMidnight : Bool
  /-- The weekdays of the window; missing for every day. -/
  days : Option WeekdaySet := none
  /-- The months of the window; none for the whole year. -/
  months : List MonthRange := []
  /-- The last admission, which has no bearing on when the window is open. -/
  lastAdmission : Option ClockTime := none
  /-- The window applies on public holidays. -/
  includesHolidays : Bool := true
  notes : List Text := []
  deriving DecidableEq, Repr

namespace TimeWindow

/-- The every-day window between two times. It crosses midnight if its end does not come after its
start. -/
def between (start : ClockTime) (finish : Option ClockTime) : TimeWindow :=
  { start, finish
    crossesMidnight := finish.any fun f => f.minuteOfDay ≤ start.minuteOfDay }

/-- Whether the window is in force in the month. -/
def inSeason (w : TimeWindow) (month : Nat) : Bool :=
  w.months.isEmpty || w.months.any (·.includes month)

/-- Whether the window is in force on an ordinary day of the week. -/
def onWeekday (w : TimeWindow) (d : Weekday) : Bool :=
  w.days.all (·.contains d)

/-- Whether the window starts on the date. -/
def appliesOn (w : TimeWindow) (date : Date) : HolidayQuery Bool :=
  .onlyIf (w.inSeason date.month) do
    let holiday ← .isHoliday date
    pure (if holiday then w.includesHolidays else w.onWeekday date.weekday)

/-- Whether the window started on the date before. -/
def appliedBefore (w : TimeWindow) (date : Date) : HolidayQuery Bool :=
  match date.prev? with
  | none => pure false
  | some yesterday => w.appliesOn yesterday

/-- Whether the moment lies in the window. Without an end this is unknown from the start on. -/
def contains (w : TimeWindow) (moment : Moment) : HolidayQuery Tristate :=
  match w.finish with
  | none => do
    let started ← .onlyIf (w.start.minuteOfDay ≤ moment.minute) (w.appliesOn moment.date)
    pure (if started then .unknown else .no)
  | some finish =>
    if w.crossesMidnight then
      Tristate.ofBool <$> HolidayQuery.any
        [.onlyIf (w.start.minuteOfDay ≤ moment.minute) (w.appliesOn moment.date),
          .onlyIf (moment.minute < finish.minuteOfDay) (w.appliedBefore moment.date)]
    else
      Tristate.ofBool <$> HolidayQuery.onlyIf
        (w.start.minuteOfDay ≤ moment.minute && moment.minute < finish.minuteOfDay)
        (w.appliesOn moment.date)

/-! ## Under a calendar of holidays -/

theorem under_appliesOn (holidays : HolidayCalendar) (w : TimeWindow) (date : Date) :
    (w.appliesOn date).under holidays = (w.inSeason date.month &&
      if holidays date then w.includesHolidays else w.onWeekday date.weekday) := by
  rw [appliesOn, HolidayQuery.under_onlyIf]
  rfl

/-- **An open end is never a definite yes, a fixed end never unknown.** -/
theorem under_contains_ne (holidays : HolidayCalendar) (w : TimeWindow) (moment : Moment) :
    (w.contains moment).under holidays ≠ if w.finish.isSome then .unknown else .yes := by
  rw [contains]
  cases hf : w.finish with
  | none =>
    simp only [HolidayQuery.under_bind, HolidayQuery.under_pure, Option.isSome_none]
    split <;> simp
  | some finish =>
    simp only [Option.isSome_some, if_true]
    split <;> simp

end TimeWindow

end OpeningHours
