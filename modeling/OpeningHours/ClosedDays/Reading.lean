import OpeningHours.ClosedDays.Ascending
import OpeningHours.ClosedDays.ClosedDays
import OpeningHours.ClosedDays.Dates
import OpeningHours.Hours.Wording
import OpeningHours.Numeral.Kanji
import OpeningHours.Text.NormalForm
import OpeningHours.Text.Remainder

/-!
# Reading closed days

`ClosedDays.ofText` reads the text about a facility's closed days. Reading never fails: what is not
understood is kept in the notes.

The text up to the first `※` is the main clause. It is read in passes, each of which blanks out what
it reads: statements about holidays, flags, dates, labels, ordinal weekdays, days of the month and
last the weekdays. The clauses after a `※` are remarks, read for dates only.
-/

namespace OpeningHours

open Wording

/-! ## Recurring rules -/

/-- The numeral in the text, if its value lies between 1 and `most`. -/
def numeralUpTo? (most : Nat) (t : Text) : Option Nat :=
  (Kanji.read? t).bind fun n => if 1 ≤ n.toNat ∧ n.toNat ≤ most then some n.toNat else none

/-- The ordinal numbers in a list of them. -/
def ordinalNumbers (t : Text) : List Nat :=
  ascending (t.filterMap fun c => numeralUpTo? 5 [c])

/-- The days of the month in a list of them. -/
def dayNumbers (t : Text) : List Nat :=
  (Closed.dayNumber.findAll t).filterMap fun h => numeralUpTo? 31 h.taken

/-- The rule that a hit of `Closed.ordinalWeekday` names. -/
def Hit.ordinalRule? (h : Hit) (shifts : Bool) : Option ClosureRule :=
  let ordinals := ordinalNumbers (h.part 1)
  if ordinals.isEmpty then none
  else ((h.part 2).head?.bind Weekday.ofKanji?).map fun weekday => .ordinal ordinals weekday shifts

/-- The rules for ordinal weekdays in a text and the text without them. -/
def extractOrdinals (shifts : Bool) (t : Text) : List ClosureRule × Text :=
  let (rules, rest) := Closed.ordinalWeekday.extract (fun _ h => some (h.ordinalRule? shifts)) t
  (rules.filterMap id, rest)

/-- The rule for days of every month in a text, if there is one, and the text without them. -/
def extractMonthly (shifts : Bool) (t : Text) : Option ClosureRule × Text :=
  let (monthly, rest) := Closed.monthlyDays.extract (fun _ h => some (dayNumbers (h.part 1))) t
  let (bare, rest) := Closed.bareDays.extract (fun _ h => some (dayNumbers (h.part 1))) rest
  let days := ascending (monthly.flatten ++ bare.flatten)
  (if days.isEmpty then none else some (.monthly days shifts), rest)

/-- The weekly rule on the days of a scope, if it has any. -/
def weeklyRule? (s : DayScope) (shifts exceptHolidays : Bool) : Option ClosureRule :=
  let onHolidaysToo := decide (s.holidays = .included)
  if !s.weekdays.isEmpty || onHolidaysToo then
    some (.weekly s.weekdays onHolidaysToo shifts (exceptHolidays || s.holidays = .excluded))
  else none

/-! ## Clauses -/

/-- The rules and notes of a clause. -/
structure Clause where
  rules : List ClosureRule := []
  notes : List Text := []
  deriving DecidableEq, Repr

namespace Clause

/-- The note that the unread rest of a clause makes. -/
def leftover (t : Text) : List Text :=
  (Text.remainder? (Closed.closureWord.blankOut t)).toList

/-- The main clause without what it says about holidays and without flags. -/
def withoutRemarks (t : Text) : Text :=
  [Closed.shift, Closed.openOnHolidays, Closed.dayAfterHoliday, Closed.never, Closed.irregular,
    Wording.inquiry].foldl (fun rest p => p.blankOut rest) t

/-- The statements about days after holidays, of which the first becomes a note. -/
def dayAfterHolidayNote (t : Text) : List Text :=
  let rest := Closed.openOnHolidays.blankOut (Closed.shift.blankOut t)
  ((Closed.dayAfterHoliday.find? rest).map fun (_, h) => h.taken).toList

/-- Read the main clause. -/
def readMain (t : Text) : Clause :=
  let shifts := Closed.shift.occursIn t
  let exceptHolidays := Closed.openOnHolidays.occursIn (Closed.shift.blankOut t)
  let (dated, rest) := extractDates (withoutRemarks t)
  let (ordinals, rest) := extractOrdinals shifts (Closed.label.blankOut rest)
  let (monthly, rest) := extractMonthly shifts rest
  let (days, rest) := extractDays rest
  let weekly := days.bind fun s => weeklyRule? s shifts exceptHolidays
  { rules := weekly.toList ++ ordinals ++ monthly.toList ++ dated.toList
    notes := dayAfterHolidayNote t ++ leftover rest }

/-- Read a remark. -/
def readRemark (t : Text) : Clause :=
  let (dated, rest) := extractDates t
  { rules := dated.toList, notes := leftover rest }

end Clause

/-! ## The whole reading -/

namespace ClosedDays

/-- The clauses of a text: the main clause and the remarks after it. -/
def readClauses (t : Text) : List Clause :=
  match Text.cut (· == '※') t with
  | [] => []
  | main :: remarks => Clause.readMain main :: remarks.map Clause.readRemark

/-- The result with what a text in normal form says. -/
def readNormal (r : ClosedDays) (t : Text) : ClosedDays :=
  if t.isEmpty then r
  else
    let clauses := readClauses t
    { r with
      rules := clauses.flatMap Clause.rules
      noRegular := Closed.never.occursIn t
      irregular := Closed.irregular.occursIn t
      requiresInquiry := Wording.inquiry.occursIn t
      notes := clauses.flatMap Clause.notes }

/-- What a text says about closed days; a missing text says nothing. -/
def ofText (raw : Option Text) : ClosedDays :=
  match raw with
  | none => {}
  | some t =>
    let normal := Text.normalize t
    readNormal { raw := some t, normalized := some normal } normal

end ClosedDays

end OpeningHours
