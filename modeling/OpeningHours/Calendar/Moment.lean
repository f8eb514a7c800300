import OpeningHours.Calendar.ClockTime
import OpeningHours.Calendar.Date

/-!
# Moments

A moment is a second of a date, read on some wall clock. Opening hours look at its date and its
minute only; the seconds are carried along.
-/

namespace OpeningHours

/-- A date, a time of day and a second of the minute. -/
structure Moment where
  date : Date
  time : ClockTime
  second : Fin 60 := 0
  deriving DecidableEq, Repr

namespace Moment

/-- The minute of the day. -/
def minute (m : Moment) : Nat :=
  m.time.minuteOfDay

/-- The number of minutes since the start of the year 1. -/
def absoluteMinute (m : Moment) : Int :=
  1440 * m.date.dayNumber + m.minute

/-- The moment on the date with the given minute of the day, or on a date beside it if the minute
lies outside the day by less than a day. -/
def ofMinute? (date : Date) (minute : Int) (second : Fin 60) : Option Moment :=
  let onDate (d : Date) (n : Int) : Option Moment :=
    if h : 0 ≤ n ∧ n < 1440 then some ⟨d, ⟨n.toNat, by omega⟩, second⟩ else none
  if minute < 0 then date.prev?.bind (onDate · (minute + 1440))
  else if minute < 1440 then onDate date minute
  else date.next?.bind (onDate · (minute - 1440))

/-- The moment some minutes later, by less than a day. Beyond either end of the calendar there is
none. -/
def shift? (m : Moment) (minutes : Int) : Option Moment :=
  ofMinute? m.date (m.minute + minutes) m.second

end Moment

end OpeningHours
