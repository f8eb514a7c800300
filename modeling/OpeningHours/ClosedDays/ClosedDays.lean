import OpeningHours.ClosedDays.Rule
import OpeningHours.Text.Basic

/-!
# Closed days

What a facility's text says about the days on which it is closed: rules, that there are none, or
that they are irregular. `ClosedDays.isClosedOn` answers for a date. Rules, once there are any,
count for more than the statement that there are none.
-/

namespace OpeningHours

/-- What a text says about closed days. -/
structure ClosedDays where
  /-- The text as given. -/
  raw : Option Text := none
  /-- Its normal form. -/
  normalized : Option Text := none
  rules : List ClosureRule := []
  /-- The text says that there are no regular closed days. -/
  noRegular : Bool := false
  /-- The text says that closed days are irregular. -/
  irregular : Bool := false
  requiresInquiry : Bool := false
  /-- What could not be understood. -/
  notes : List Text := []
  deriving DecidableEq, Repr

namespace ClosedDays

/-- The answer for a date that no rule closes. -/
def otherwise (c : ClosedDays) : Tristate :=
  if !c.rules.isEmpty || c.noRegular then .no
  else if c.irregular then .unknown
  else .no

/-- Whether the facility is closed all day on the date. -/
def isClosedOn (c : ClosedDays) (date : Date) : HolidayQuery Tristate := do
  if ← .any (c.rules.map fun r => r.closes date) then return .yes
  return c.otherwise

/-- The date is surely closed exactly if a rule closes it. -/
theorem under_isClosedOn_eq_yes (holidays : HolidayCalendar) (c : ClosedDays) (date : Date) :
    (c.isClosedOn date).under holidays = .yes ↔
      ∃ r ∈ c.rules, (r.closes date).under holidays = true := by
  have hother : c.otherwise ≠ .yes := by
    rw [otherwise]
    split
    · simp
    · split <;> simp
  rw [isClosedOn, HolidayQuery.under_bind, HolidayQuery.under_any, List.any_map]
  cases h : c.rules.any ((fun q => q.under holidays) ∘ fun r => r.closes date) with
  | true =>
    simp only [if_true, HolidayQuery.under_pure, true_iff]
    simpa using h
  | false =>
    simp only [Bool.false_eq_true, if_false, HolidayQuery.under_pure, hother,
      false_iff]
    simpa using h

end ClosedDays

end OpeningHours
