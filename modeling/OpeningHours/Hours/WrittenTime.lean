import OpeningHours.Calendar.ClockTime
import OpeningHours.Text.Pattern.Number

/-!
# Clock times in texts

A clock time is written `9:00`, `9時`, `9時30分` or `9時半`. `Wording.clock` is the pattern of these
forms with the names under which it keeps its parts, and `Hit.clock?` reads the time from a hit.
-/

namespace OpeningHours

/-- The names of the parts of a clock time. -/
structure ClockSlots where
  hour : Slot
  minute : Slot
  half : Slot

namespace Wording

open Pattern

/-- A clock time. -/
def clock (s : ClockSlots) : Pattern :=
  keep s.hour oneOrTwoDigits ++
    ((word ":" ++ keep s.minute (digit ++ digit)) |||
      (word "時" ++ opt ((keep s.minute oneOrTwoDigits ++ word "分") ||| keep s.half (word "半"))))

end Wording

/-- The minute of a clock time in a hit: as written, 30 for half past, else zero. -/
def Hit.clockMinute (h : Hit) (s : ClockSlots) : Nat :=
  (h.number? s.minute).getD (if h.has s.half then 30 else 0)

/-- The clock time in a hit, and whether it belongs to the following day. -/
def Hit.clock? (h : Hit) (s : ClockSlots) : Option (ClockTime × Bool) :=
  (h.number? s.hour).bind fun hour => ClockTime.ofWritten? hour (h.clockMinute s)

end OpeningHours
