import OpeningHours.Calendar.Date

/-!
# Days of the year

A month and a day without a year, as in `12/29`, and spans of such days. A day of the year must
exist in leap years, so `2/29` is one. A span whose start comes after its end runs past the new
year.
-/

namespace OpeningHours

/-- A month and a day of it. -/
structure MonthDay where
  month : Nat
  day : Nat
  deriving DecidableEq, Repr

namespace MonthDay

/-- The day of the year, if some year has it. -/
def ofNumbers? (month day : Nat) : Option MonthDay :=
  if IsDate 2024 month day then some ⟨month, day⟩ else none

/-- The day of the year of a date. -/
def ofDate (d : Date) : MonthDay :=
  ⟨d.month, d.day⟩

/-- Whether the first day comes no later in the year than the second. -/
def le (a b : MonthDay) : Bool :=
  a.month < b.month || (a.month == b.month && a.day ≤ b.day)

instance : LE MonthDay := ⟨fun a b => a.le b = true⟩

instance : DecidableLE MonthDay := fun a b => inferInstanceAs (Decidable (a.le b = true))

theorem le_iff (a b : MonthDay) :
    a ≤ b ↔ a.month < b.month ∨ (a.month = b.month ∧ a.day ≤ b.day) := by
  show a.le b = true ↔ _
  simp [le]

theorem le_refl (a : MonthDay) : a ≤ a := by
  simp [le_iff]

theorem le_trans {a b c : MonthDay} (hab : a ≤ b) (hbc : b ≤ c) : a ≤ c := by
  simp only [le_iff] at *
  omega

end MonthDay

/-- The days of the year from `start` to `finish`, both included. -/
structure DateSpan where
  start : MonthDay
  finish : MonthDay
  deriving DecidableEq, Repr

namespace DateSpan

/-- Whether the day lies in the span. -/
def includes (s : DateSpan) (day : MonthDay) : Bool :=
  if s.start ≤ s.finish then s.start ≤ day && day ≤ s.finish
  else s.start ≤ day || day ≤ s.finish

/-- The break from the 29th of December to the third of January. -/
def yearEnd : DateSpan :=
  ⟨⟨12, 29⟩, ⟨1, 3⟩⟩

theorem includes_start (s : DateSpan) : s.includes s.start = true := by
  simp [includes, MonthDay.le_refl]

end DateSpan

end OpeningHours
