import OpeningHours.Hours.Window

/-!
# Opening times

What a facility's text says about when it is open: windows, or that it never opens or never closes,
or nothing that can be used. `OpeningTimes.openState` answers for a moment, and leaves the answer
unknown where the text does.
-/

namespace OpeningHours

/-- What a text says about opening times. -/
structure OpeningTimes where
  /-- The text as given. -/
  raw : Option Text := none
  /-- Its normal form. -/
  normalized : Option Text := none
  windows : List TimeWindow := []
  /-- Never open. -/
  isClosed : Bool := false
  /-- Open around the clock. -/
  isAroundTheClock : Bool := false
  requiresInquiry : Bool := false
  requiresReservation : Bool := false
  /-- The text gives no window. -/
  isUnknown : Bool := false
  checkIn : Option ClockTime := none
  checkOut : Option ClockTime := none
  /-- What could not be understood. -/
  notes : List Text := []
  deriving DecidableEq, Repr

namespace OpeningTimes

/-- Whether the facility is open at a moment of its wall clock. A window that is surely open decides
the matter; without one, an open end or a lack of windows leaves it unknown. -/
def openState (t : OpeningTimes) (moment : Moment) : HolidayQuery Tristate :=
  if t.isClosed then pure .no
  else if t.isAroundTheClock then pure .yes
  else if t.windows.isEmpty then pure .unknown
  else .strongest (t.windows.map fun w => w.contains moment)

/-- Whether the facility counts as open. An unknown state counts as closed or open as the caller
assumes. -/
def isOpen (t : OpeningTimes) (moment : Moment) (assumeClosed : Bool) : HolidayQuery Bool :=
  (·.orElse !assumeClosed) <$> t.openState moment

end OpeningTimes

end OpeningHours
