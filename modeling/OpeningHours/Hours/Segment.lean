import OpeningHours.Hours.Window
import OpeningHours.Hours.Wording
import OpeningHours.Scope.Days
import OpeningHours.Scope.Months
import OpeningHours.Text.Bracket
import OpeningHours.Text.Pattern.Lemmas
import OpeningHours.Text.Remainder

/-!
# Segments of opening times

A statement about opening times is a list of segments. A segment holds time ranges, each with
qualifiers in front of it and perhaps a parenthetical behind it, or it holds qualifiers alone, which
scope the segments after it. `Segment.read` reads one segment under the `Scope` that the segments
before it have left.

Where a segment has ranges, the text in front of a range scopes this range and all later ones; what
stands in parentheses behind a range scopes that range only; what stands behind the last range
scopes all ranges of the segment. Text that says something else becomes a note.
-/

namespace OpeningHours

/-! ## Scoping a window -/

/-- The months and days that a stretch of text is about. -/
structure Qualifiers where
  months : List MonthRange := []
  days : Option DayScope := none
  deriving DecidableEq, Repr

namespace Qualifiers

/-- Whether nothing is qualified. -/
def isEmpty (q : Qualifiers) : Bool :=
  q.months.isEmpty && q.days.isNone

/-- The qualifiers of a text and what is left of the text. -/
def extract (t : Text) : Qualifiers × Text :=
  let (months, rest) := extractMonths t
  let (days, rest) := extractDays rest
  (⟨months, days⟩, rest)

/-- The qualifiers of a text made of nothing else. -/
def only? (t : Text) : Option Qualifiers :=
  let (q, rest) := extract t
  if !q.isEmpty && (Text.remainder? rest).isNone then some q else none

end Qualifiers

namespace TimeWindow

/-- The weekdays of a scope: those named; none where only holidays are named; else every day. -/
def daysOf (s : DayScope) : Option WeekdaySet :=
  if !s.weekdays.isEmpty then some s.weekdays
  else if s.holidays = .included ∧ !s.everyDay then some .empty
  else none

/-- The window on the days of the scope. Where the scope is silent on holidays they are included
exactly if no weekdays are named. -/
def onDays (w : TimeWindow) (s : DayScope) : TimeWindow :=
  { w with
    days := daysOf s
    includesHolidays :=
      match s.holidays with
      | .included => true
      | .excluded => false
      | .unspecified => (daysOf s).isNone }

/-- The window under qualifiers behind it, which win over those it has. -/
def qualify (w : TimeWindow) (q : Qualifiers) : TimeWindow :=
  let w := if q.months.isEmpty then w else { w with months := q.months }
  match q.days with
  | none => w
  | some s => w.onDays s

/-- The window with more notes. -/
def addNotes (w : TimeWindow) (notes : List Text) : TimeWindow :=
  { w with notes := w.notes ++ notes }

end TimeWindow

/-! ## The scope of a statement -/

/-- The qualifiers in force within a statement. -/
structure Scope where
  months : List MonthRange := []
  days : Option DayScope := none
  /-- Days of segments without a range, which wait for the next text in front of a range. -/
  waiting : Option DayScope := none
  deriving DecidableEq, Repr

namespace Scope

/-- The scope after a segment that holds qualifiers alone. -/
def hold (s : Scope) (q : Qualifiers) : Scope :=
  { s with
    months := if q.months.isEmpty then s.months else q.months
    waiting :=
      match q.days with
      | none => s.waiting
      | some days => some (DayScope.mergeInto s.waiting days) }

/-- The scope after qualifiers in front of a range. New days, with those that wait, replace the
days in force. -/
def enter (s : Scope) (q : Qualifiers) : Scope :=
  { months := if q.months.isEmpty then s.months else q.months
    days :=
      match q.days, s.waiting with
      | some days, waiting => some (DayScope.mergeInto waiting days)
      | none, some waiting => some waiting
      | none, none => s.days
    waiting := none }

/-- The scope after the text in front of a range, and the notes that this text makes. A text about
closing says nothing about the range and is a note as a whole. -/
def readBefore (s : Scope) (t : Text) : Scope × List Text :=
  if Wording.closureMention.occursIn t then (s, (Text.remainder? t).toList)
  else
    let (q, rest) := Qualifiers.extract t
    (s.enter q, (Text.remainder? rest).toList)

/-- The window under the scope. -/
def apply (s : Scope) (w : TimeWindow) : TimeWindow :=
  let w := { w with months := s.months }
  match s.days with
  | none => w
  | some days => w.onDays days

end Scope

/-! ## What stands behind a range -/

/-- What the text behind a range says: qualifiers, if it is made of these alone, or a note. -/
structure Trailer where
  qualifiers : Qualifiers := {}
  note : Option Text := none
  deriving DecidableEq, Repr

namespace Trailer

/-- Read the text behind a range. -/
def read (t : Text) : Trailer :=
  match Qualifiers.only? t with
  | some q => { qualifiers := q }
  | none => { note := Text.remainder? t }

end Trailer

/-! ## Ranges -/

/-- The window that a time range names, if its times exist. -/
def Hit.window? (h : Hit) : Option TimeWindow := do
  let (start, _) ← h.clock? Wording.startSlots
  if h.has Wording.sunsetSlot then
    return .between start none
  let (finish, nextDay) ← h.clock? Wording.finishSlots
  let w := TimeWindow.between start (some finish)
  return { w with crossesMidnight := w.crossesMidnight || nextDay || h.has Wording.nextDaySlot }

/-- What has been read of a segment with ranges. -/
structure RangeReading where
  windows : List TimeWindow := []
  /-- Notes of ranges whose times do not exist. -/
  stray : List Text := []
  scope : Scope
  /-- The text behind the last range. -/
  tail : Text := []

namespace RangeReading

/-- The reading with one more range in front. -/
def cons (window : Option TimeWindow) (stray : List Text) (r : RangeReading) : RangeReading :=
  { r with windows := window.toList ++ r.windows, stray := stray ++ r.stray }

end RangeReading

/-- The text behind a range, and the parenthetical between, if there is one. -/
def afterRange (rest : Text) : Option Text × Text :=
  match Text.leadingParenthetical? rest with
  | some (inside, after) => (some inside, after)
  | none => (none, rest)

/-- The window of a range under its scope and what stands in parentheses behind it, with the notes
of the text in front of it. -/
def finishWindow (scope : Scope) (notes : List Text) (parenthetical : Option Text)
    (w : TimeWindow) : TimeWindow :=
  let w := scope.apply w
  match parenthetical with
  | none => w.addNotes notes
  | some inside =>
    let p := Trailer.read inside
    (w.qualify p.qualifiers).addNotes (notes ++ p.note.toList)

theorem length_afterRange_le (rest : Text) : (afterRange rest).2.length ≤ rest.length := by
  rw [afterRange]
  split
  · next h => exact Nat.le_of_lt (Text.length_lt_of_leadingParenthetical? h)
  · exact Nat.le_refl _

/-- Read the ranges of a text from left to right under a scope. A range inside the parenthetical of
an earlier one is passed over. -/
def readRanges (scope : Scope) (t : Text) : RangeReading :=
  match hfind : Wording.timeRange.find? t with
  | none => { scope, tail := t }
  | some (skipped, h) =>
    let entered := scope.readBefore skipped
    let after := afterRange h.rest
    have : after.2.length < t.length :=
      Nat.lt_of_le_of_lt (length_afterRange_le h.rest) (Pattern.rest_length_lt_of_find? hfind)
    let later := readRanges entered.1 after.2
    match h.window? with
    | some w => later.cons (some (finishWindow entered.1 entered.2 after.1 w)) []
    | none => later.cons none (entered.2 ++ [h.taken])
termination_by t.length

/-! ## Last admissions -/

/-- Whether the text goes on with the end of a time range. -/
def continuesRange (t : Text) : Bool :=
  let t := Text.trimStart t
  t.head?.any (fun c => c == '~' || c == '-') || "から".toList.isPrefixOf t

/-- The last admission that a hit of `Wording.lastAdmission` names. One that goes on as a range is
an admission time instead. -/
def Hit.lastAdmission? (h : Hit) : Option ClockTime :=
  if continuesRange h.rest then none else (h.clock? Wording.lastAdmissionSlots).map Prod.fst

/-- The last admission of a segment, the last one named if there are several, and the segment
without them. -/
def extractLastAdmission (t : Text) : Option ClockTime × Text :=
  let (times, rest) := Wording.lastAdmission.extract (fun _ h => h.lastAdmission?) t
  (times.getLast?, rest)

/-! ## Segments -/

/-- What a segment says. -/
inductive Segment where
  /-- Nothing, or nothing beyond the scope of later segments. -/
  | silent
  | windows (ws : List TimeWindow)
  /-- Something that is not understood. -/
  | note (t : Text)
  deriving DecidableEq, Repr

/-- Add to the last window of a list. -/
def noteLast (notes : List Text) : List TimeWindow → List TimeWindow
  | [] => []
  | [w] => [w.addNotes notes]
  | w :: v :: ws => w :: noteLast notes (v :: ws)

/-- The windows of a segment with ranges. -/
def RangeReading.close (r : RangeReading) (lastAdmission : Option ClockTime) : List TimeWindow :=
  let p := Trailer.read r.tail
  noteLast (r.stray ++ p.note.toList) <| r.windows.map fun w =>
    { w.qualify p.qualifiers with lastAdmission := lastAdmission.or w.lastAdmission }

namespace Segment

/-- Read a segment without ranges. -/
def readPlain (scope : Scope) (segment rest : Text) (lastAdmission : Option ClockTime) :
    Segment × Scope :=
  match Qualifiers.only? rest with
  | some q => (.silent, scope.hold q)
  | none =>
    if lastAdmission.isSome || (Text.remainder? rest).isNone then (.silent, scope)
    else (.note segment, scope)

/-- Read a segment with ranges. -/
def readTimed (scope : Scope) (segment rest : Text) (lastAdmission : Option ClockTime) :
    Segment × Scope :=
  let r := readRanges scope rest
  if r.windows.isEmpty then (.note segment, r.scope)
  else (.windows (r.close lastAdmission), r.scope)

/-- Read a segment under a scope; the scope after it comes with what it says. -/
def read (scope : Scope) (t : Text) : Segment × Scope :=
  let segment := Text.trim t
  if segment.isEmpty then (.silent, scope)
  else
    let (lastAdmission, rest) := extractLastAdmission segment
    if Wording.timeRange.occursIn rest then readTimed scope segment rest lastAdmission
    else readPlain scope segment rest lastAdmission

end Segment

end OpeningHours
