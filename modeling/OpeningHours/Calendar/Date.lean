import OpeningHours.Calendar.Weekday

/-!
# Dates

The proleptic Gregorian calendar with astronomical years, from the year −262143 to the year 262142.
A date is a year, a month and a day that exist. `Date.dayNumber` counts the days since the first of
January of the year 1, a Monday, and orders the dates; the weekday follows from it.

The neighbours of a date are found by trying: the next date is the first that exists among the next
day of the month, the first of the next month and the first of the next year.
-/

namespace OpeningHours

/-! ## Years and months -/

/-- Whether the year has a 29th of February. -/
def isLeapYear (y : Int) : Bool :=
  y % 4 == 0 && (y % 100 != 0 || y % 400 == 0)

/-- How many days the month has. -/
def monthLength (y : Int) (m : Nat) : Nat :=
  match m with
  | 2 => if isLeapYear y then 29 else 28
  | 4 | 6 | 9 | 11 => 30
  | _ => 31

/-- The first year of the calendar. -/
def firstYear : Int := -262143

/-- The last year of the calendar. -/
def lastYear : Int := 262142

/-- Whether a year, a month and a day name a date of the calendar. -/
def IsDate (y : Int) (m d : Nat) : Prop :=
  (firstYear ≤ y ∧ y ≤ lastYear) ∧ (1 ≤ m ∧ m ≤ 12) ∧ 1 ≤ d ∧ d ≤ monthLength y m

instance (y : Int) (m d : Nat) : Decidable (IsDate y m d) :=
  inferInstanceAs (Decidable (_ ∧ _))

/-- A date of the calendar. -/
structure Date where
  year : Int
  month : Nat
  day : Nat
  isDate : IsDate year month day := by decide
  deriving DecidableEq, Repr

namespace Date

/-- The date with the given year, month and day, if it exists. -/
def ofYmd? (y : Int) (m d : Nat) : Option Date :=
  if h : IsDate y m d then some ⟨y, m, d, h⟩ else none

theorem ofYmd?_eq_some {y : Int} {m d : Nat} {date : Date} :
    ofYmd? y m d = some date ↔ date.year = y ∧ date.month = m ∧ date.day = d := by
  constructor
  · intro h
    rw [ofYmd?] at h
    split at h
    · obtain rfl := Option.some.inj h
      exact ⟨rfl, rfl, rfl⟩
    · simp at h
  · rintro ⟨rfl, rfl, rfl⟩
    simp [ofYmd?, date.isDate]

/-! ## Neighbours -/

/-- The next date; the last date of the calendar has none. -/
def next? (d : Date) : Option Date :=
  (ofYmd? d.year d.month (d.day + 1)).or
    ((ofYmd? d.year (d.month + 1) 1).or (ofYmd? (d.year + 1) 1 1))

/-- The date before; the first date of the calendar has none. -/
def prev? (d : Date) : Option Date :=
  (ofYmd? d.year d.month (d.day - 1)).or
    ((ofYmd? d.year (d.month - 1) (monthLength d.year (d.month - 1))).or
      (ofYmd? (d.year - 1) 12 31))

/-! ## Counting days -/

/-- The number of days from the start of the year 1 to the start of the year. -/
def daysBeforeYear (y : Int) : Int :=
  365 * (y - 1) + (y - 1) / 4 - (y - 1) / 100 + (y - 1) / 400

/-- The number of days of the year before the month after month `m`. -/
def daysThroughMonth (y : Int) : Nat → Nat
  | 0 => 0
  | m + 1 => daysThroughMonth y m + monthLength y (m + 1)

/-- The number of days since the first of January of the year 1. -/
def dayNumber (d : Date) : Int :=
  daysBeforeYear d.year + daysThroughMonth d.year (d.month - 1) + d.day - 1

/-- The weekday of the date. -/
def weekday (d : Date) : Weekday :=
  Weekday.ofIndex (d.dayNumber % 7).toNat

instance : LT Date := ⟨fun a b => a.dayNumber < b.dayNumber⟩

instance : DecidableLT Date := fun a b => Int.decLt a.dayNumber b.dayNumber

theorem lt_iff (a b : Date) : a < b ↔ a.dayNumber < b.dayNumber := Iff.rfl

/-- A year is 365 days long, a leap year one day longer. -/
theorem daysBeforeYear_succ (y : Int) :
    daysBeforeYear (y + 1) = daysBeforeYear y + if isLeapYear y then 366 else 365 := by
  have hleap : isLeapYear y = true ↔ y % 4 = 0 ∧ (y % 100 ≠ 0 ∨ y % 400 = 0) := by
    simp [isLeapYear]
  simp only [daysBeforeYear]
  split
  · next h => have := hleap.1 h; omega
  · next h =>
    have : ¬ (y % 4 = 0 ∧ (y % 100 ≠ 0 ∨ y % 400 = 0)) := fun hy => h (hleap.2 hy)
    omega

/-- The months of a year make up the year. -/
theorem daysThroughMonth_twelve (y : Int) :
    daysThroughMonth y 12 = if isLeapYear y then 366 else 365 := by
  cases h : isLeapYear y <;> simp [daysThroughMonth, monthLength, h]

end Date

end OpeningHours
