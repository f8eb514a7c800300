import OpeningHours.Fault
import OpeningHours.Holiday.Names
import OpeningHours.Json.Reader
import OpeningHours.Json.Writer

/-!
# Holidays of a year as JSON

The holidays of a year are written as an object from dates to names. The reader skips the keys that
are no dates and the dates of other years. Keys in different spellings may name one date; the one
that comes last in the order of code points counts, whatever the order of the members.
-/

namespace OpeningHours

open Json

/-! ## Reading -/

/-- The members of an object of strings. -/
def stringMembers? (v : Value) : Option (List (Text × Text)) :=
  v.members?.bind fun ms => ms.mapM fun (key, v) => v.text?.map fun t => (key, t)

/-- The holiday of the year that a member names. -/
def holidayOfMember? (year : Int) (member : Text × Text) : Option (Date × Text) :=
  match Date.ofText? (Text.trim member.1) with
  | some date => if date.year = year then some (date, member.2) else none
  | none => none

/-- The holidays of the year that the members name. -/
def holidaysOfMembers (year : Int) (members : List (Text × Text)) : HolidayNames :=
  HolidayNames.ofList ((OrderedEntries.ofList members).filterMap (holidayOfMember? year))

/-- The holidays of the year that a JSON text names. -/
def readHolidays (year : Int) (body : Text) : Except Fault HolidayNames :=
  match (Json.read? body).bind stringMembers? with
  | some members => .ok (holidaysOfMembers year members)
  | none => .error (.malformedHolidays year)

/-! ## Writing -/

/-- The holidays as a JSON text with one date to a line. -/
def writeHolidays (names : HolidayNames) : Text :=
  prettyStrings (names.map fun (date, name) => (date.toText, name))

end OpeningHours
