import OpeningHours.Calendar.ClockTime
import OpeningHours.Calendar.Date
import OpeningHours.Numeral.Decimal

/-!
# Written dates and times

Dates are written as `2026-01-12`: four digits for the years 0 to 9999, a sign and at least four
digits for the others. The reader `Date.ofText?` is more lenient than the writer: blanks may stand
in front of each number, month and day may have one digit, the year one to four, and a signed year
any number of digits.
-/

namespace OpeningHours

open Text Decimal

/-! ## Writing -/

/-- The written year: four digits, or a sign and at least four. -/
def writeYear (y : Int) : Text :=
  if y < 0 then '-' :: writePadded 4 y.natAbs
  else if y ≤ 9999 then writePadded 4 y.natAbs
  else '+' :: writePadded 4 y.natAbs

/-- The written date. -/
def Date.toText (d : Date) : Text :=
  writeYear d.year ++ '-' :: writePadded 2 d.month ++ '-' :: writePadded 2 d.day

/-- The written time of day, with seconds. -/
def ClockTime.toText (t : ClockTime) : Text :=
  writePadded 2 t.hour ++ ':' :: writePadded 2 t.minute ++ ":00".toList

/-! ## Reading -/

/-- The number at the start of the text, of at least one digit and
at most `most`, and the text after it. -/
def readNumber? (most : Nat) (t : Text) : Option (Nat × Text) :=
  match takeDigits most t with
  | ([], _) => none
  | (digits, rest) => some (value digits, rest)

/-- The year at the start of the text and the text after it. -/
def readYear? (t : Text) : Option (Int × Text) :=
  match trimStart t with
  | '-' :: r => (readNumber? r.length r).map fun (n, rest) => (-(n : Int), rest)
  | '+' :: r => (readNumber? r.length r).map fun (n, rest) => ((n : Int), rest)
  | r => (readNumber? 4 r).map fun (n, rest) => ((n : Int), rest)

/-- The month or day of the month after a hyphen at the start of the text. -/
def readAfterHyphen? (t : Text) : Option (Nat × Text) :=
  match t with
  | '-' :: r => readNumber? 2 (trimStart r)
  | _ => none

/-- The date that the whole text names. -/
def Date.ofText? (t : Text) : Option Date := do
  let (year, t) ← readYear? t
  let (month, t) ← readAfterHyphen? t
  let (day, t) ← readAfterHyphen? t
  if t.isEmpty then Date.ofYmd? year month day else none

end OpeningHours
