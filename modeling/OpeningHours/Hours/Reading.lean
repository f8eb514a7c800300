import OpeningHours.Hours.OpeningTimes
import OpeningHours.Hours.Segment
import OpeningHours.Text.NormalForm

/-!
# Reading opening times

`OpeningTimes.ofText` reads the text about a facility's opening times. Reading never fails: what is
not understood is kept in the notes.

The text as a whole is looked at first. A text about being open around the clock, or about being
closed without a time range, is settled by that; so is one that only asks for inquiries or
reservations or only names check-in and check-out times. All other texts are statements, each read
segment by segment under a scope of its own.
-/

namespace OpeningHours

namespace OpeningTimes

/-! ## The text as a whole -/

/-- Whether the text says that the facility never closes. -/
def saysAroundTheClock (t : Text) : Bool :=
  (Wording.aroundTheClock.findAll t).any fun h => !h.has Wording.limitSlot

/-- Whether the text says nothing but that the facility is closed. -/
def saysClosed (t : Text) : Bool :=
  let bare := Text.trimEndBy (fun c => c == '。' || c == '.' || c == ' ') t
  Wording.fullyClosed.occursIn bare || Wording.alwaysOccupied.occursIn bare

/-- The time of the first hit of a hotel pattern. -/
def hotelTime? (p : Pattern) (t : Text) : Option ClockTime :=
  (p.find? t).bind fun (_, h) => (h.clock? Wording.hotelSlots).map Prod.fst

/-- The text without check-in and check-out times. -/
def withoutHotelTimes (t : Text) : Text :=
  Wording.checkOut.blankOut (Wording.checkIn.blankOut t)

/-! ## Statements -/

/-- The windows and notes of the segments of a statement, from a scope on. -/
def readSegments : Scope → List Text → List TimeWindow × List Text
  | _, [] => ([], [])
  | scope, segment :: segments =>
    let (said, scope) := Segment.read scope segment
    let (windows, notes) := readSegments scope segments
    match said with
    | .silent => (windows, notes)
    | .windows ws => (ws ++ windows, notes)
    | .note t => (windows, t :: notes)

/-- The windows and notes of a statement. -/
def readStatement (t : Text) : List TimeWindow × List Text :=
  readSegments {} (Text.splitTopLevel isSegmentMark t)

/-- The windows and notes of all statements of a text. -/
def readStatements (t : Text) : List TimeWindow × List Text :=
  let read := (Text.splitTopLevel isStatementMark t).map readStatement
  (read.flatMap Prod.fst, read.flatMap Prod.snd)

/-! ## The whole reading -/

/-- Whether the result asks for something or names a hotel time, which explains a text without a
time range. -/
def isExplained (r : OpeningTimes) : Bool :=
  r.requiresInquiry || r.requiresReservation || r.checkIn.isSome || r.checkOut.isSome

/-- The result with the statements of the text. -/
def withStatements (r : OpeningTimes) (t : Text) : OpeningTimes :=
  let (windows, notes) := readStatements t
  { r with windows, notes, isUnknown := windows.isEmpty }

/-- The result with what a text in normal form says. -/
def readNormal (r : OpeningTimes) (t : Text) : OpeningTimes :=
  if t.isEmpty then { r with isUnknown := true }
  else if saysAroundTheClock t then { r with isAroundTheClock := true }
  else
    let hasRange := Wording.timeRange.occursIn t
    let r := { r with
      requiresInquiry := Wording.inquiry.occursIn t
      requiresReservation := Wording.reservation.occursIn t }
    if !hasRange && saysClosed t then { r with isClosed := true }
    else
      let r := { r with
        checkIn := hotelTime? Wording.checkIn t
        checkOut := hotelTime? Wording.checkOut t }
      if !hasRange && r.isExplained then { r with isUnknown := true }
      else r.withStatements (withoutHotelTimes t)

/-- What a text says about opening times; a missing text says nothing. -/
def ofText (raw : Option Text) : OpeningTimes :=
  match raw with
  | none => { isUnknown := true }
  | some t =>
    let normal := Text.normalize t
    readNormal { raw := some t, normalized := some normal } normal

end OpeningTimes

end OpeningHours
