/-!
# Times of day

A time of day is a minute of the day. Texts write the hours after midnight as 24 and more
(`25:30`); `ClockTime.ofWritten?` folds them back into the day and says so.
-/

namespace OpeningHours

/-- A minute of the day. -/
structure ClockTime where
  minuteOfDay : Nat
  lt : minuteOfDay < 1440 := by decide
  deriving DecidableEq, Repr

namespace ClockTime

/-- The hour, from 0 to 23. -/
def hour (t : ClockTime) : Nat :=
  t.minuteOfDay / 60

/-- The minute of the hour. -/
def minute (t : ClockTime) : Nat :=
  t.minuteOfDay % 60

/-- The time with the given hour of the day and minute, if there is one. -/
def ofHourMinute? (hour minute : Nat) : Option ClockTime :=
  if h : hour < 24 ∧ minute < 60 then some ⟨60 * hour + minute, by omega⟩ else none

/-- The time meant by a written hour and minute, and whether it belongs to the following day. Hours
up to 47 can be written. -/
def ofWritten? (hour minute : Nat) : Option (ClockTime × Bool) :=
  if hour ≤ 47 then (ofHourMinute? (hour % 24) minute).map fun t => (t, decide (24 ≤ hour))
  else none

end ClockTime

end OpeningHours
