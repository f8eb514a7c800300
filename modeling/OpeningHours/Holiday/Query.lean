import OpeningHours.Calendar.Date
import OpeningHours.Tristate

/-!
# Questions about holidays

Whether a facility is open or closed may hang on whether a date is a public holiday. A
`HolidayQuery` is an answer that may first ask for some dates, each question depending on the
answers before it; it asks nothing that it does not need. `HolidayQuery.under` gives the answer
under a calendar of holidays, `HolidayQuery.asked` the dates asked for on the way, and
`HolidayQuery.run` lets a look-up with a state of its own answer the questions.

The main statement is `under_congr`: calendars that agree on the dates asked for give the same
answer.
-/

namespace OpeningHours

/-- Which dates are public holidays. -/
abbrev HolidayCalendar := Date → Bool

/-- An answer that may first ask which dates are holidays. -/
inductive HolidayQuery (α : Type) where
  | answer (a : α)
  | ask (date : Date) (next : Bool → HolidayQuery α)

namespace HolidayQuery

/-- Go on with the answer. -/
def andThen : HolidayQuery α → (α → HolidayQuery β) → HolidayQuery β
  | .answer a, f => f a
  | .ask date next, f => .ask date fun b => (next b).andThen f

instance : Monad HolidayQuery where
  pure := .answer
  bind := .andThen

/-- Whether the date is a holiday. -/
def isHoliday (date : Date) : HolidayQuery Bool :=
  .ask date .answer

/-- The answer under a calendar. -/
def under (holidays : HolidayCalendar) : HolidayQuery α → α
  | .answer a => a
  | .ask date next => (next (holidays date)).under holidays

/-- The dates asked for under a calendar, in order. -/
def asked (holidays : HolidayCalendar) : HolidayQuery α → List Date
  | .answer _ => []
  | .ask date next => date :: (next (holidays date)).asked holidays

/-- The answer where each question is put to `lookUp`, and the state that this leaves. -/
def run (lookUp : Date → σ → Bool × σ) : HolidayQuery α → σ → α × σ
  | .answer a, s => (a, s)
  | .ask date next, s =>
    let (b, s) := lookUp date s
    (next b).run lookUp s

/-! ## Combining queries -/

/-- Whether `b` holds and the query says yes. Nothing is asked where `b` fails. -/
def onlyIf (b : Bool) (q : HolidayQuery Bool) : HolidayQuery Bool :=
  if b then q else pure false

/-- Whether any of the queries says yes, up to the first that does. -/
def any : List (HolidayQuery Bool) → HolidayQuery Bool
  | [] => pure false
  | q :: qs => do
    if ← q then pure true else any qs

/-- Yes if any of the queries says so, up to the first that does; else unknown if any leaves its
question open; else no. -/
def strongest : List (HolidayQuery Tristate) → HolidayQuery Tristate
  | [] => pure .no
  | q :: qs => do
    match ← q with
    | .yes => pure .yes
    | .no => strongest qs
    | .unknown => do
      match ← strongest qs with
      | .yes => pure .yes
      | _ => pure .unknown

/-! ## Answers under a calendar -/

@[simp] theorem under_pure (holidays : HolidayCalendar) (a : α) :
    (pure a : HolidayQuery α).under holidays = a := rfl

@[simp] theorem under_isHoliday (holidays : HolidayCalendar) (date : Date) :
    (isHoliday date).under holidays = holidays date := rfl

@[simp] theorem under_bind (holidays : HolidayCalendar) (q : HolidayQuery α)
    (f : α → HolidayQuery β) :
    (q >>= f).under holidays = (f (q.under holidays)).under holidays := by
  show (q.andThen f).under holidays = _
  induction q with
  | answer a => rfl
  | ask date next ih => exact ih _

@[simp] theorem under_map (holidays : HolidayCalendar) (f : α → β) (q : HolidayQuery α) :
    (f <$> q).under holidays = f (q.under holidays) := by
  show (q >>= fun a => pure (f a)).under holidays = _
  simp

@[simp] theorem under_onlyIf (holidays : HolidayCalendar) (b : Bool) (q : HolidayQuery Bool) :
    (onlyIf b q).under holidays = (b && q.under holidays) := by
  cases b <;> simp [onlyIf]

@[simp] theorem under_any (holidays : HolidayCalendar) (qs : List (HolidayQuery Bool)) :
    (any qs).under holidays = qs.any fun q => q.under holidays := by
  induction qs with
  | nil => rfl
  | cons q qs ih =>
    rw [any, under_bind, List.any_cons, ← ih]
    cases q.under holidays <;> simp

/-- Any definite yes makes the answer yes. -/
theorem under_strongest_eq_yes (holidays : HolidayCalendar) (qs : List (HolidayQuery Tristate)) :
    (strongest qs).under holidays = .yes ↔ ∃ q ∈ qs, q.under holidays = .yes := by
  induction qs with
  | nil => simp [strongest]
  | cons q qs ih =>
    rw [strongest, under_bind]
    cases hq : q.under holidays with
    | yes => simp [hq]
    | no => simpa [hq] using ih
    | unknown =>
      have hrest : (∃ p ∈ q :: qs, p.under holidays = .yes) ↔
          (strongest qs).under holidays = .yes := by simp [hq, ih]
      rw [hrest, under_bind]
      cases (strongest qs).under holidays <;> simp

/-- The answer is no where every query says so. -/
theorem under_strongest_eq_no (holidays : HolidayCalendar) (qs : List (HolidayQuery Tristate)) :
    (strongest qs).under holidays = .no ↔ ∀ q ∈ qs, q.under holidays = .no := by
  induction qs with
  | nil => simp [strongest]
  | cons q qs ih =>
    rw [strongest, under_bind]
    cases hq : q.under holidays with
    | yes => simp [hq]
    | no => simpa [hq] using ih
    | unknown =>
      have hrest : ¬ ∀ p ∈ q :: qs, p.under holidays = .no := fun h => by simp [hq] at h
      simp only [under_bind, hrest, iff_false]
      cases (strongest qs).under holidays <;> simp

/-- One query decides alone. -/
@[simp] theorem under_strongest_singleton (holidays : HolidayCalendar)
    (q : HolidayQuery Tristate) : (strongest [q]).under holidays = q.under holidays := by
  rw [strongest, under_bind]
  cases q.under holidays <;> simp [strongest]

/-! ## Which dates matter -/

/-- **Calendars that agree on the dates asked for give the same answer.** -/
theorem under_congr {g h : HolidayCalendar} (q : HolidayQuery α)
    (hgh : ∀ d ∈ q.asked g, g d = h d) : q.under g = q.under h := by
  induction q with
  | answer a => rfl
  | ask date next ih =>
    have hd : g date = h date := hgh date (by simp [asked])
    rw [under, under, ← hd]
    exact ih _ fun d hm => hgh d (by simp [asked, hm])

end HolidayQuery

end OpeningHours
