import OpeningHours.Calendar.TimeZone
import OpeningHours.ClosedDays.Reading
import OpeningHours.Fault
import OpeningHours.Hours.Reading

/-!
# Schedules

A schedule is what a facility's texts say about opening times and closed days together. A facility
is available at a moment if its opening times cover the moment and its date is no closed day. Where
a text leaves the matter open, the caller's assumption decides both halves.
-/

namespace OpeningHours

/-- The opening times and closed days of a facility. -/
structure Schedule where
  times : OpeningTimes
  closedDays : ClosedDays
  deriving DecidableEq, Repr

namespace Schedule

/-- Read the two texts of a facility. -/
def ofTexts (times closedDays : Option Text) : Schedule :=
  ⟨OpeningTimes.ofText times, ClosedDays.ofText closedDays⟩

/-- Whether the opening times cover the moment; closed days aside. -/
def isOpen (s : Schedule) (moment : Moment) (assumeClosed : Bool) : HolidayQuery Bool :=
  s.times.isOpen moment assumeClosed

/-- Whether the date is a closed day. -/
def isClosedOn (s : Schedule) (date : Date) : HolidayQuery Tristate :=
  s.closedDays.isClosedOn date

/-- Whether the facility is open at the moment and the date is no closed day. -/
def isAvailable (s : Schedule) (moment : Moment) (assumeClosed : Bool) : HolidayQuery Bool := do
  if ← s.isOpen moment assumeClosed then
    return !(← s.isClosedOn moment.date).orElse assumeClosed
  else
    return false

/-- Whether the opening times cover a moment of universal time on the wall clock of the zone. -/
def isOpenIn (s : Schedule) (zone : TimeZone) (utc : Moment) (assumeClosed : Bool) :
    HolidayQuery Bool :=
  s.isOpen (zone.localTime utc) assumeClosed

/-- Whether the facility is available at a moment of universal time on the wall clock of the
zone. -/
def isAvailableIn (s : Schedule) (zone : TimeZone) (utc : Moment) (assumeClosed : Bool) :
    HolidayQuery Bool :=
  s.isAvailable (zone.localTime utc) assumeClosed

/-- **A facility is available where it is open and not closed.** -/
theorem under_isAvailable (holidays : HolidayCalendar) (s : Schedule) (moment : Moment)
    (assumeClosed : Bool) :
    (s.isAvailable moment assumeClosed).under holidays =
      ((s.isOpen moment assumeClosed).under holidays &&
        !((s.isClosedOn moment.date).under holidays).orElse assumeClosed) := by
  rw [isAvailable, HolidayQuery.under_bind]
  split
  · next h => simp [h]
  · next h => simp [h]

end Schedule

/-- The time zone of the given name. -/
def findTimeZone (name : Text) : Except Fault TimeZone :=
  match TimeZone.named? name with
  | some zone => .ok zone
  | none => .error (.unknownTimeZone name)

end OpeningHours
