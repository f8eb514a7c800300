/-!
# Ranges of months

A range runs from one month to another, both included, and past December if the second month comes
first in the year.
-/

namespace OpeningHours

/-- The months from `first` to `last`. -/
structure MonthRange where
  first : Nat
  last : Nat
  deriving DecidableEq, Repr

namespace MonthRange

/-- Whether the number is that of a month. -/
def isMonth (m : Nat) : Bool :=
  1 ≤ m && m ≤ 12

/-- The range between two months, if both exist. -/
def ofMonths? (first last : Nat) : Option MonthRange :=
  if isMonth first && isMonth last then some ⟨first, last⟩ else none

/-- The range of one month, if it exists. -/
def single? (month : Nat) : Option MonthRange :=
  ofMonths? month month

/-- Whether the month lies in the range. -/
def includes (r : MonthRange) (month : Nat) : Bool :=
  if r.first ≤ r.last then r.first ≤ month && month ≤ r.last
  else r.first ≤ month || month ≤ r.last

theorem isMonth_of_ofMonths? {first last : Nat} {r : MonthRange}
    (h : ofMonths? first last = some r) : isMonth r.first = true ∧ isMonth r.last = true := by
  rw [ofMonths?] at h
  split at h
  · next hm =>
    obtain rfl := Option.some.inj h
    simpa using hm
  · simp at h

theorem includes_first (r : MonthRange) : r.includes r.first = true := by
  simp only [includes]
  split <;> simp_all

end MonthRange

end OpeningHours
