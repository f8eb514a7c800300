import OpeningHours.Calendar.DateText
import OpeningHours.Holiday.OrderedEntries
import OpeningHours.Holiday.Query
import OpeningHours.Text.Basic

/-!
# Holidays with their names

The holidays that a service or a file names, in ascending order of their dates, and calendars of
fixed dates.
-/

namespace OpeningHours

/-- Holidays with their names, each date once, in ascending order. -/
abbrev HolidayNames := List (Date × Text)

namespace HolidayNames

/-- The holidays of a list; of several names for a date the last counts. -/
def ofList (entries : List (Date × Text)) : HolidayNames :=
  OrderedEntries.ofList entries

/-- The dates of the holidays. -/
def dates (names : HolidayNames) : List Date :=
  names.map Prod.fst

end HolidayNames

/-- The dates of a list, each once, in ascending order. -/
def ascendingDates (dates : List Date) : List Date :=
  (OrderedEntries.ofList (dates.map fun d => (d, ()))).map Prod.fst

/-- A fixed list of holidays. -/
structure FixedHolidays where
  dates : List Date := []
  deriving DecidableEq, Repr

namespace FixedHolidays

/-- The holidays of the list as a calendar. -/
def calendar (f : FixedHolidays) : HolidayCalendar :=
  fun date => f.dates.contains date

/-- The holidays of a year in ascending order. -/
def inYear (f : FixedHolidays) (year : Int) : List Date :=
  ascendingDates (f.dates.filter fun d => d.year == year)

end FixedHolidays

end OpeningHours
