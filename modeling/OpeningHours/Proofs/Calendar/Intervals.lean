import Mathlib.Data.List.Basic
import OpeningHours.Proofs.Calendar.DayCount
import OpeningHours.Proofs.Calendar.WeekdayDates

/-!
# Intervals of dates

`Date.between a b` lists the dates from one date to another by going from each date to the next. It
holds exactly the dates between the two, each once, so what is counted in the list is counted in the
calendar.

* **`mem_between`**, `nodup_between`: the dates of an interval;
* `firstOfMonth`, `lastOfMonth`, `InMonthOf`: months as intervals;
* **`InMonthOf.countP_weekday`**: how often a weekday comes up in a month up to one of its dates
  follows from the day of that date and from the first such weekday of the month.
-/

namespace OpeningHours.Date

variable {a b d : Date}

/-- The dates from a date on, `n` of them as far as the calendar goes. -/
def datesFrom : Nat → Date → List Date
  | 0, _ => []
  | n + 1, a =>
    match a.next? with
    | none => [a]
    | some e => a :: datesFrom n e

/-- The dates from `a` to `b`, both included, in order. -/
def between (a b : Date) : List Date :=
  datesFrom (b.dayNumber + 1 - a.dayNumber).toNat a

/-! ## The dates of an interval -/

theorem mem_datesFrom {n : Nat} : d ∈ datesFrom n a ↔
    a.dayNumber ≤ d.dayNumber ∧ d.dayNumber < a.dayNumber + n := by
  induction n generalizing a with
  | zero =>
    simp only [datesFrom, List.not_mem_nil, false_iff]
    omega
  | succ n ih =>
    have hself : d = a ↔ d.dayNumber = a.dayNumber :=
      ⟨fun h => congrArg dayNumber h, dayNumber_injective⟩
    cases hnext : a.next? with
    | none =>
      have hlast := dayNumber_le_of_next?_eq_none hnext d
      simp only [datesFrom, hnext, List.mem_singleton, hself]
      omega
    | some e =>
      have he := dayNumber_of_next? hnext
      simp only [datesFrom, hnext, List.mem_cons, hself, ih]
      omega

/-- Going on from a date leads to later dates only. -/
theorem pairwise_datesFrom (n : Nat) (a : Date) : (datesFrom n a).Pairwise (· < ·) := by
  induction n generalizing a with
  | zero => exact List.Pairwise.nil
  | succ n ih =>
    cases hnext : a.next? with
    | none =>
      simp only [datesFrom, hnext]
      exact List.pairwise_singleton _ a
    | some e =>
      simp only [datesFrom, hnext]
      refine List.pairwise_cons.2 ⟨?_, ih e⟩
      intro d hd
      have he := dayNumber_of_next? hnext
      have hle := (mem_datesFrom.1 hd).1
      rw [lt_iff]
      omega

/-- **An interval holds the dates between its ends.** -/
theorem mem_between : d ∈ between a b ↔
    a.dayNumber ≤ d.dayNumber ∧ d.dayNumber ≤ b.dayNumber := by
  rw [between, mem_datesFrom]
  omega

theorem nodup_between (a b : Date) : (between a b).Nodup := by
  refine (pairwise_datesFrom _ a).imp ?_
  intro d e hlt heq
  rw [lt_iff, heq] at hlt
  omega

/-! ## Months -/

/-- The first date of the month in which a date lies. -/
def firstOfMonth (d : Date) : Date where
  year := d.year
  month := d.month
  day := 1
  isDate := by
    have hlength := twentyEight_le_monthLength d.year d.month
    exact ⟨d.isDate.1, d.isDate.2.1, Nat.le_refl 1, by omega⟩

/-- The last date of the month in which a date lies. -/
def lastOfMonth (d : Date) : Date where
  year := d.year
  month := d.month
  day := monthLength d.year d.month
  isDate := by
    have hlength := twentyEight_le_monthLength d.year d.month
    exact ⟨d.isDate.1, d.isDate.2.1, by omega, Nat.le_refl _⟩

/-- Whether two dates lie in one month. -/
def InMonthOf (d a : Date) : Prop :=
  d.year = a.year ∧ d.month = a.month

theorem lastOfMonth_inMonthOf (a : Date) : a.lastOfMonth.InMonthOf a :=
  ⟨rfl, rfl⟩

/-- A date is as many days into its month as its day says. -/
theorem InMonthOf.dayNumber_add_one (h : d.InMonthOf a) :
    d.dayNumber + 1 = a.firstOfMonth.dayNumber + d.day := by
  have hsub := dayNumber_sub_of_month_eq (a := a.firstOfMonth) (b := d) h.1.symm h.2.symm
  have hone : a.firstOfMonth.day = 1 := rfl
  rw [hone] at hsub
  omega

theorem InMonthOf.eq_of_day_eq {e : Date} (hd : d.InMonthOf a) (he : e.InMonthOf a)
    (h : d.day = e.day) : d = e := by
  have hdNumber := hd.dayNumber_add_one
  have heNumber := he.dayNumber_add_one
  exact dayNumber_injective (by omega)

/-! ## Counting weekdays -/

/-- How many days after a date the weekday comes up first. -/
def daysUntil (a : Date) (w : Weekday) : Nat :=
  ((w.index - a.dayNumber) % 7).toNat

/-- How often a weekday comes up among the dates up to `b`, counted from the date `n` dates before
the one after it. -/
theorem countP_weekday_datesFrom (w : Weekday) {n : Nat} (h : a.dayNumber + n = b.dayNumber + 1) :
    (datesFrom n a).countP (·.weekday == w) = (n + 6 - a.daysUntil w) / 7 := by
  induction n generalizing a with
  | zero =>
    rw [datesFrom, List.countP_nil]
    omega
  | succ n ih =>
    have hw := w.index_lt
    have hself : (a.weekday == w) = true ↔ a.dayNumber % 7 = w.index := by
      rw [beq_iff_eq, weekday_eq_iff]
    cases hnext : a.next? with
    | none =>
      have hlast := dayNumber_le_of_next?_eq_none hnext b
      simp only [datesFrom, hnext, List.countP_singleton, hself, daysUntil]
      split <;> omega
    | some e =>
      have he := dayNumber_of_next? hnext
      have hrest := ih (a := e) (by omega)
      simp only [datesFrom, hnext, List.countP_cons, hself, hrest, daysUntil]
      split <;> omega

/-- **How often a weekday comes up in a month up to one of its dates.** -/
theorem InMonthOf.countP_weekday (h : d.InMonthOf a) (w : Weekday) :
    (between a.firstOfMonth d).countP (·.weekday == w) =
      (d.day + 6 - a.firstOfMonth.daysUntil w) / 7 := by
  have hnumber := h.dayNumber_add_one
  have hlength : (d.dayNumber + 1 - a.firstOfMonth.dayNumber).toNat = d.day := by omega
  rw [between, hlength]
  exact countP_weekday_datesFrom w hnumber.symm

theorem daysUntil_lt (a : Date) (w : Weekday) : a.daysUntil w < 7 := by
  rw [daysUntil]
  omega

/-- The dates of a month with a given weekday are weeks away from the first of them. -/
theorem InMonthOf.weekday_eq_iff (h : d.InMonthOf a) (w : Weekday) :
    d.weekday = w ↔ (d.day - 1) % 7 = a.firstOfMonth.daysUntil w := by
  have hnumber := h.dayNumber_add_one
  have hw := w.index_lt
  have hday := d.isDate.2.2.1
  rw [Date.weekday_eq_iff, daysUntil]
  omega

end OpeningHours.Date
