import OpeningHours.Numeral.Decimal

/-!
# Faults

What can go wrong outside the reading of facility texts, which never fails: the settings of the
holiday service, the holidays that it serves, and the names of time zones.
-/

namespace OpeningHours

/-- The causes of failure. -/
inductive Fault where
  /-- The endpoint has no place for the year. -/
  | endpointWithoutYear (endpoint : Text)
  /-- The time limit is zero. -/
  | zeroTimeout
  /-- The holidays of a year are not served as an object of strings. What the decoder has against
  the payload is not kept. -/
  | malformedHolidays (year : Int)
  /-- There is no time zone of this name. -/
  | unknownTimeZone (name : Text)
  deriving DecidableEq, Repr

namespace Fault

/-- The message for a fault. That for malformed holidays ends with the year: the decoder's account of
the payload, which would follow behind a colon, is left out. -/
def message : Fault → Text
  | .endpointWithoutYear endpoint =>
    "Invalid configuration: endpoint '".toList ++ endpoint ++
      "' has no \x7byear\x7d placeholder".toList
  | .zeroTimeout => "Invalid configuration: timeout_secs must be positive".toList
  | .malformedHolidays year =>
    "Invalid holiday payload: year ".toList ++ Decimal.writeInt year
  | .unknownTimeZone name => "Invalid timezone: '".toList ++ name ++ "'".toList

end Fault

end OpeningHours
