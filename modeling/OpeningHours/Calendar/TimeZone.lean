import OpeningHours.Calendar.Moment
import OpeningHours.Text.Basic

/-!
# Time zones

A time zone has a name and a rule for the offset of its wall clock from universal time. The offset
is fixed, or there is a summer offset between two changeovers that fall on a Sunday of a month.

This is a small part of the time-zone database, in two respects.

* `TimeZone.known` holds ten names: `Asia/Tokyo`, `Japan`, `UTC`, `Etc/UTC`, `Asia/Kolkata`,
  `Pacific/Kiritimati`, `Etc/GMT+12`, `America/New_York`, `Europe/London` and
  `Australia/Lord_Howe`. Every other name, `Asia/Seoul` for one, is taken for that of no zone,
  although the database may have it.
* A zone has one rule, that in force in 2026, for every year before and after it. Rules that held
  in other years, such as the summer time of Japan from 1948 to 1951, are not there.

Only the wall clock (`TimeZone.localTime`) and the fault of an unknown name hang on this table.
-/

namespace OpeningHours

/-- Which Sunday of a month. -/
inductive SundayOfMonth where
  | nth (n : Nat)
  | last
  deriving DecidableEq, Repr

/-- When the clocks change: a Sunday of a month, and the minutes of universal time from the start
of that Sunday, which are negative for a change on the day before. -/
structure Changeover where
  month : Nat
  sunday : SundayOfMonth
  minute : Int
  deriving DecidableEq, Repr

namespace Changeover

/-- The day number of the first day of the month. -/
def firstDay (year : Int) (month : Nat) : Int :=
  Date.daysBeforeYear year + Date.daysThroughMonth year (month - 1)

/-- The day number of the Sunday. Day numbers that are six more than a multiple of seven are
Sundays. -/
def sundayNumber (c : Changeover) (year : Int) : Int :=
  let first := firstDay year c.month
  match c.sunday with
  | .nth n => first + (6 - first) % 7 + 7 * (n - 1)
  | .last =>
    let last := first + monthLength year c.month - 1
    last - (last - 6) % 7

/-- The changeover of the year, in minutes since the start of the year 1. -/
def absoluteMinute (c : Changeover) (year : Int) : Int :=
  1440 * c.sundayNumber year + c.minute

end Changeover

/-- How far a wall clock is ahead of universal time, in minutes. -/
inductive OffsetRule where
  /-- Always as far. -/
  | fixed (minutes : Int)
  /-- As far as `summer` from the changeover `start` until the changeover `finish`, which may come
  first in the year, and as far as `standard` otherwise. -/
  | seasonal (standard summer : Int) (start finish : Changeover)
  deriving DecidableEq, Repr

namespace OffsetRule

/-- The offset at a moment of universal time. -/
def offsetAt (r : OffsetRule) (utc : Moment) : Int :=
  match r with
  | .fixed minutes => minutes
  | .seasonal standard summer start finish =>
    let now := utc.absoluteMinute
    let s := start.absoluteMinute utc.date.year
    let f := finish.absoluteMinute utc.date.year
    let isSummer := if s ≤ f then s ≤ now && now < f else s ≤ now || now < f
    if isSummer then summer else standard

end OffsetRule

/-- A named time zone. -/
structure TimeZone where
  name : Text
  rule : OffsetRule
  deriving DecidableEq, Repr

namespace TimeZone

/-- The wall clock of Japan. -/
def tokyo : TimeZone :=
  ⟨"Asia/Tokyo".toList, .fixed 540⟩

/-- The time zones that are known by name. -/
def known : List TimeZone :=
  [tokyo,
    ⟨"Japan".toList, .fixed 540⟩,
    ⟨"UTC".toList, .fixed 0⟩,
    ⟨"Etc/UTC".toList, .fixed 0⟩,
    ⟨"Asia/Kolkata".toList, .fixed 330⟩,
    ⟨"Pacific/Kiritimati".toList, .fixed 840⟩,
    ⟨"Etc/GMT+12".toList, .fixed (-720)⟩,
    ⟨"America/New_York".toList,
      .seasonal (-300) (-240) ⟨3, .nth 2, 420⟩ ⟨11, .nth 1, 360⟩⟩,
    ⟨"Europe/London".toList, .seasonal 0 60 ⟨3, .last, 60⟩ ⟨10, .last, 60⟩⟩,
    ⟨"Australia/Lord_Howe".toList,
      .seasonal 630 660 ⟨10, .nth 1, -510⟩ ⟨4, .nth 1, -540⟩⟩]

/-- The zone with the given name, in exactly that spelling. -/
def named? (name : Text) : Option TimeZone :=
  known.find? fun zone => zone.name == name

/-- What the wall clock shows at a moment of universal time. A moment that the zone would carry
beyond an end of the calendar stays where it is. -/
def localTime (zone : TimeZone) (utc : Moment) : Moment :=
  (utc.shift? (zone.rule.offsetAt utc)).getD utc

end TimeZone

end OpeningHours
