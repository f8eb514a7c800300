import OpeningHours.ClosedDays.Rule
import OpeningHours.Proofs.Calendar.Intervals

/-!
# The n-th weekday of a month

A rule for ordinal weekdays goes by the day of the month: the days 1 to 7 hold the first weekday of
its kind, the days 8 to 14 the second, and so on. What the rule means is a count: the n-th Wednesday
of a month is the date up to which the month has n Wednesdays. Within a month the dates with one
weekday are weeks apart, so the two agree in every month of the calendar.

* `countP_weekday_eq_ordinalInMonth`: the day of the month tells the count;
* `existsUnique_ordinalInMonth`: the n-th weekday is one date, if the month is long enough;
* **`under_closes_ordinal`**: the rule closes by the count; each of the first four weekdays of a kind
  is one date of the month, and the fifth is one if there are five.
-/

namespace OpeningHours.ClosureRule

variable {holidays : HolidayCalendar} {a d : Date} {w : Weekday} {n : Nat}

/-- The number of the days 1 to 7 is the count of the weekday up to there, and likewise for the weeks
that follow. -/
theorem countP_weekday_eq_ordinalInMonth (hd : d.InMonthOf a) (hw : d.weekday = w) :
    (Date.between a.firstOfMonth d).countP (·.weekday == w) = ordinalInMonth d := by
  have hfirst := (hd.weekday_eq_iff w).1 hw
  have hday := d.isDate.2.2.1
  rw [hd.countP_weekday, ordinalInMonth, ← hfirst]
  omega

/-- **The n-th weekday of a month is one date**, if the month is long enough: it comes n - 1 weeks
after the first. -/
theorem existsUnique_ordinalInMonth (hn : 1 ≤ n)
    (hlength : a.firstOfMonth.daysUntil w + 7 * (n - 1) + 1 ≤ monthLength a.year a.month) :
    ∃! d : Date, d.InMonthOf a ∧ d.weekday = w ∧ ordinalInMonth d = n := by
  obtain ⟨day, hday⟩ : ∃ day, day = a.firstOfMonth.daysUntil w + 7 * (n - 1) + 1 := ⟨_, rfl⟩
  have hlt := a.firstOfMonth.daysUntil_lt w
  have hdate : IsDate a.year a.month day := ⟨a.isDate.1, a.isDate.2.1, by omega, by omega⟩
  have hmonth : Date.InMonthOf ⟨a.year, a.month, day, hdate⟩ a := ⟨rfl, rfl⟩
  refine ⟨⟨a.year, a.month, day, hdate⟩, ⟨hmonth, ?_, ?_⟩, ?_⟩
  · rw [hmonth.weekday_eq_iff]
    show (day - 1) % 7 = _
    omega
  · show (day - 1) / 7 + 1 = n
    omega
  · intro e he
    obtain ⟨hemonth, heweekday, heordinal⟩ := he
    have hfirst := (hemonth.weekday_eq_iff w).1 heweekday
    have hone := e.isDate.2.2.1
    refine hemonth.eq_of_day_eq hmonth ?_
    show e.day = day
    rw [ordinalInMonth] at heordinal
    omega

/-- A rule that does not shift closes its weekday where the ordinal number is one of its own. -/
theorem under_closes_ordinal_iff (holidays : HolidayCalendar) (ordinals : List Nat) (w : Weekday)
    (d : Date) : ((ordinal ordinals w false).closes d).under holidays = true ↔
      d.weekday = w ∧ ordinalInMonth d ∈ ordinals := by
  rw [closes, under_shifted, triggers]
  simp

/-- **An ordinal weekday is the n-th of its kind in the month.** A rule that does not shift closes a
date of a month, whatever the holidays, exactly if it has the weekday and the number of dates with
that weekday in the month, up to and including it, is one of the ordinals. So the ordinals 1 to 4
close one date each in every month. The ordinal 5 closes one in a month with five dates of the
weekday, and none in the others. -/
theorem under_closes_ordinal (holidays : HolidayCalendar) (w : Weekday) (a : Date) :
    let closed (ordinals : List Nat) (d : Date) : Prop :=
      ((ordinal ordinals w false).closes d).under holidays = true
    let weekdays (d : Date) : Nat :=
      (Date.between a.firstOfMonth d).countP (·.weekday == w)
    (∀ ordinals d, d.InMonthOf a → (closed ordinals d ↔ d.weekday = w ∧ weekdays d ∈ ordinals)) ∧
    (∀ n, 1 ≤ n → n ≤ 4 → ∃! d : Date, d.InMonthOf a ∧ closed [n] d) ∧
    (weekdays a.lastOfMonth = 5 → ∃! d : Date, d.InMonthOf a ∧ closed [5] d) ∧
    (weekdays a.lastOfMonth ≠ 5 → ∀ d : Date, d.InMonthOf a → ¬ closed [5] d) := by
  intro closed weekdays
  have hclosed (n : Nat) (d : Date) : closed [n] d ↔ d.weekday = w ∧ ordinalInMonth d = n := by
    have hiff := under_closes_ordinal_iff holidays [n] w d
    rw [List.mem_singleton] at hiff
    exact hiff
  have hlt := a.firstOfMonth.daysUntil_lt w
  have hshort := Date.twentyEight_le_monthLength a.year a.month
  have hlong := Date.monthLength_le a.year a.month
  have hall : weekdays a.lastOfMonth =
      (monthLength a.year a.month + 6 - a.firstOfMonth.daysUntil w) / 7 :=
    a.lastOfMonth_inMonthOf.countP_weekday w
  refine ⟨?_, ?_, ?_, ?_⟩
  · intro ordinals d hd
    refine (under_closes_ordinal_iff holidays ordinals w d).trans (and_congr_right ?_)
    intro hw
    rw [← countP_weekday_eq_ordinalInMonth hd hw]
  · intro n hn hle
    simp only [hclosed]
    exact existsUnique_ordinalInMonth hn (by omega)
  · intro hfive
    simp only [hclosed]
    exact existsUnique_ordinalInMonth (by omega) (by omega)
  · intro hfour d hd hfifth
    obtain ⟨hw, hordinal⟩ := (hclosed 5 d).1 hfifth
    have hfirst := (hd.weekday_eq_iff w).1 hw
    have hday := d.isDate.2.2.2
    rw [hd.1, hd.2] at hday
    rw [ordinalInMonth] at hordinal
    omega

/-- April 2026 has five Wednesdays and four Fridays. -/
theorem under_closes_ordinal_april :
    let a : Date := { year := 2026, month := 4, day := 9 }
    let third : Date := { year := 2026, month := 4, day := 15 }
    let closed (ordinals : List Nat) (w : Weekday) (d : Date) : Prop :=
      ((ordinal ordinals w false).closes d).under (fun _ => true) = true
    let weekdays (w : Weekday) (d : Date) : Nat :=
      (Date.between a.firstOfMonth d).countP (·.weekday == w)
    (third.InMonthOf a ∧ (closed [1, 3] .wed third ↔
      third.weekday = .wed ∧ weekdays .wed third ∈ [1, 3])) ∧
    (∃! d : Date, d.InMonthOf a ∧ closed [4] .fri d) ∧
    (weekdays .wed a.lastOfMonth = 5 ∧ ∃! d : Date, d.InMonthOf a ∧ closed [5] .wed d) ∧
    (weekdays .fri a.lastOfMonth ≠ 5 ∧ ¬ closed [5] .fri a.lastOfMonth) := by
  intro a third closed weekdays
  have hthird : third.InMonthOf a := ⟨rfl, rfl⟩
  have hwednesdays : weekdays .wed a.lastOfMonth = 5 := by decide
  have hfridays : weekdays .fri a.lastOfMonth ≠ 5 := by decide
  obtain ⟨hcount, -, hfifth, -⟩ := under_closes_ordinal (fun _ => true) .wed a
  obtain ⟨-, hsome, -, hnone⟩ := under_closes_ordinal (fun _ => true) .fri a
  exact ⟨⟨hthird, hcount [1, 3] third hthird⟩, hsome 4 (by decide) (by decide),
    ⟨hwednesdays, hfifth hwednesdays⟩,
    ⟨hfridays, hnone hfridays a.lastOfMonth a.lastOfMonth_inMonthOf⟩⟩

end OpeningHours.ClosureRule
