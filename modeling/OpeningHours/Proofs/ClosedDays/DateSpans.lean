import Mathlib.Data.Int.LeastGreatest
import Mathlib.Order.Bounds.Basic
import OpeningHours.Proofs.Calendar.DayCount
import OpeningHours.Proofs.ClosedDays.WellFormed

/-!
# Spans of days as stretches of the calendar

A rule for a span compares days of the year, month and day, with no year at hand. What it closes is
nevertheless a stretch of dates: from the first date of some year that lies at or after the start,
to the last date that lies at or before the end, in the same year or, if the span runs past the new
year, in the next. Neither end of the span need be a date of that year; the 29th of February is one
that most years lack.

* `Date.le_iff_ofDate_le`: within a year, dates are ordered as their days of the year;
* `Date.exists_isLeast`, `Date.exists_isGreatest`: dates have a first and a last one among them;
* `DateSpan.Stretch`: the first and the last date of the span that starts in a year;
* **`ClosureRule.under_closes_span`**: the dates that the rule closes are those in one of the
  stretches.
-/

namespace OpeningHours

/-! ## The order of the dates -/

namespace Date

instance : LE Date := ⟨fun a b => a.dayNumber ≤ b.dayNumber⟩

theorem le_iff (a b : Date) : a ≤ b ↔ a.dayNumber ≤ b.dayNumber := Iff.rfl

theorem le_of_year_lt {a b : Date} (h : a.year < b.year) : a ≤ b :=
  (dayNumber_lt_of_year_lt h).le

theorem year_le_of_le {a b : Date} (h : a ≤ b) : a.year ≤ b.year := by
  by_contra hlt
  exact absurd (dayNumber_lt_of_year_lt (not_le.1 hlt)) (Int.not_lt.2 h)

/-- **Within a year, dates are ordered as their days of the year.** -/
theorem le_iff_ofDate_le {a b : Date} (hy : a.year = b.year) :
    a ≤ b ↔ MonthDay.ofDate a ≤ MonthDay.ofDate b := by
  rw [le_iff, MonthDay.le_iff]
  simp only [MonthDay.ofDate]
  rcases lt_trichotomy a.month b.month with hlt | heq | hgt
  · have := dayNumber_lt_of_month_lt hy hlt
    omega
  · have := dayNumber_sub_of_month_eq hy heq
    omega
  · have := dayNumber_lt_of_month_lt hy.symm hgt
    omega

/-- The calendar starts with the first of January of its first year. -/
theorem dayNumber_first_le (d : Date) :
    dayNumber ⟨firstYear, 1, 1, by decide⟩ ≤ d.dayNumber :=
  dayNumber_le_of_prev?_eq_none (by decide) d

/-- The calendar ends with the 31st of December of its last year. -/
theorem le_dayNumber_last (d : Date) :
    d.dayNumber ≤ dayNumber ⟨lastYear, 12, 31, by decide⟩ :=
  dayNumber_le_of_next?_eq_none (by decide) d

/-- **Dates have a first one among them.** -/
theorem exists_isLeast {S : Set Date} (hS : S.Nonempty) : ∃ a, IsLeast S a := by
  obtain ⟨d, hd⟩ := hS
  obtain ⟨n, ⟨a, ha, rfl⟩, hleast⟩ :=
    Int.exists_least_of_bdd (P := fun n => ∃ a ∈ S, a.dayNumber = n)
      ⟨_, fun _ ⟨a, _, hn⟩ => hn ▸ a.dayNumber_first_le⟩ ⟨d.dayNumber, d, hd, rfl⟩
  exact ⟨a, ha, fun b hb => hleast b.dayNumber ⟨b, hb, rfl⟩⟩

/-- **Dates have a last one among them.** -/
theorem exists_isGreatest {S : Set Date} (hS : S.Nonempty) : ∃ b, IsGreatest S b := by
  obtain ⟨d, hd⟩ := hS
  obtain ⟨n, ⟨b, hb, rfl⟩, hgreatest⟩ :=
    Int.exists_greatest_of_bdd (P := fun n => ∃ b ∈ S, b.dayNumber = n)
      ⟨_, fun _ ⟨b, _, hn⟩ => hn ▸ b.le_dayNumber_last⟩ ⟨d.dayNumber, d, hd, rfl⟩
  exact ⟨b, hb, fun a ha => hgreatest a.dayNumber ⟨a, ha, rfl⟩⟩

/-! ## The dates of a year on one side of a day -/

/-- The dates of the year at or after the day. -/
def fromDay (y : Int) (m : MonthDay) : Set Date :=
  {d | d.year = y ∧ m ≤ MonthDay.ofDate d}

/-- The dates of the year at or before the day. -/
def upToDay (y : Int) (m : MonthDay) : Set Date :=
  {d | d.year = y ∧ MonthDay.ofDate d ≤ m}

/-- No day comes after the 31st of December. -/
theorem fromDay_nonempty {y : Int} (hy : firstYear ≤ y ∧ y ≤ lastYear) {m : MonthDay}
    (hm : m.IsValid) : (fromDay y m).Nonempty := by
  obtain ⟨date, rfl⟩ := ClosureRule.exists_monthDay hm
  have hdate := date.isDate
  have hlength := monthLength_le date.year date.month
  refine ⟨⟨y, 12, 31, hy, by decide, by decide, Nat.le_refl 31⟩, rfl, ?_⟩
  rw [IsDate] at hdate
  rw [MonthDay.le_iff]
  simp only [MonthDay.ofDate]
  omega

/-- No day comes before the first of January. -/
theorem upToDay_nonempty {y : Int} (hy : firstYear ≤ y ∧ y ≤ lastYear) {m : MonthDay}
    (hm : m.IsValid) : (upToDay y m).Nonempty := by
  obtain ⟨date, rfl⟩ := ClosureRule.exists_monthDay hm
  have hdate := date.isDate
  refine ⟨⟨y, 1, 1, hy, by decide, Nat.le_refl 1, show 1 ≤ 31 by decide⟩, rfl, ?_⟩
  rw [IsDate] at hdate
  rw [MonthDay.le_iff]
  simp only [MonthDay.ofDate]
  omega

end Date

open Date

/-! ## The stretches of a span -/

namespace DateSpan

variable {s : DateSpan} {y : Int} {a b d : Date}

/-- The dates `a` and `b` are the first and the last one of the span that starts in the year. A span
whose start comes after its end runs into the next year. -/
structure Stretch (s : DateSpan) (y : Int) (a b : Date) : Prop where
  first : IsLeast (fromDay y s.start) a
  last : IsGreatest (upToDay (if s.start ≤ s.finish then y else y + 1) s.finish) b

theorem includes_iff_of_le (h : s.start ≤ s.finish) (m : MonthDay) :
    s.includes m = true ↔ s.start ≤ m ∧ m ≤ s.finish := by
  simp [includes, h]

theorem includes_iff_of_not_le (h : ¬ s.start ≤ s.finish) (m : MonthDay) :
    s.includes m = true ↔ s.start ≤ m ∨ m ≤ s.finish := by
  simp [includes, h]

/-- The day of each date in a stretch lies in the span. -/
theorem Stretch.includes_of_le (hs : s.Stretch y a b) (had : a ≤ d) (hdb : d ≤ b) :
    s.includes (MonthDay.ofDate d) = true := by
  obtain ⟨⟨hya, hstart⟩, -⟩ := hs.first
  obtain ⟨⟨hyb, hfinish⟩, -⟩ := hs.last
  have hyear := year_le_of_le had
  have hyear' := year_le_of_le hdb
  have hafter : d.year = y → s.start ≤ MonthDay.ofDate d := fun hy =>
    MonthDay.le_trans hstart ((le_iff_ofDate_le (by omega)).1 had)
  have hbefore : d.year = b.year → MonthDay.ofDate d ≤ s.finish := fun hy =>
    MonthDay.le_trans ((le_iff_ofDate_le hy).1 hdb) hfinish
  by_cases h : s.start ≤ s.finish
  · rw [if_pos h] at hyb
    exact (includes_iff_of_le h _).2 ⟨hafter (by omega), hbefore (by omega)⟩
  · rw [if_neg h] at hyb
    rw [includes_iff_of_not_le h]
    rcases le_or_gt d.year y with hle | hgt
    · exact .inl (hafter (by omega))
    · exact .inr (hbefore (by omega))

/-- A year with a date on the inner side of each end has a stretch of the span. -/
theorem exists_stretch (hstart : (fromDay y s.start).Nonempty)
    (hfinish : (upToDay (if s.start ≤ s.finish then y else y + 1) s.finish).Nonempty) :
    ∃ a b, s.Stretch y a b := by
  obtain ⟨a, ha⟩ := exists_isLeast hstart
  obtain ⟨b, hb⟩ := exists_isGreatest hfinish
  exact ⟨a, b, ha, hb⟩

/-- A date whose day lies in the span lies in one of its stretches: in that of its own year or, if
the span was entered before the new year, in that of the year before. -/
theorem exists_stretch_of_includes (hstart : s.start.IsValid) (hfinish : s.finish.IsValid)
    (hfirst : firstYear < d.year) (hlast : d.year < lastYear)
    (h : s.includes (MonthDay.ofDate d) = true) :
    ∃ (y : Int) (a b : Date), s.Stretch y a b ∧ a ≤ d ∧ d ≤ b := by
  by_cases hle : s.start ≤ s.finish
  · obtain ⟨hafter, hbefore⟩ := (includes_iff_of_le hle _).1 h
    have hafter : d ∈ fromDay d.year s.start := ⟨rfl, hafter⟩
    have hbefore : d ∈ upToDay (if s.start ≤ s.finish then d.year else d.year + 1) s.finish :=
      ⟨(if_pos hle).symm, hbefore⟩
    obtain ⟨a, b, hs⟩ := exists_stretch ⟨d, hafter⟩ ⟨d, hbefore⟩
    exact ⟨d.year, a, b, hs, hs.first.2 hafter, hs.last.2 hbefore⟩
  · rcases (includes_iff_of_not_le hle _).1 h with hafter | hbefore
    · have hafter : d ∈ fromDay d.year s.start := ⟨rfl, hafter⟩
      have hnext : (upToDay (if s.start ≤ s.finish then d.year else d.year + 1)
          s.finish).Nonempty := by
        rw [if_neg hle]
        exact upToDay_nonempty ⟨by omega, by omega⟩ hfinish
      obtain ⟨a, b, hs⟩ := exists_stretch ⟨d, hafter⟩ hnext
      have hb : b.year = d.year + 1 := hs.last.1.1.trans (if_neg hle)
      exact ⟨d.year, a, b, hs, hs.first.2 hafter, le_of_year_lt (by omega)⟩
    · have hbefore : d ∈ upToDay
          (if s.start ≤ s.finish then d.year - 1 else d.year - 1 + 1) s.finish :=
        ⟨by rw [if_neg hle, Int.sub_add_cancel], hbefore⟩
      obtain ⟨a, b, hs⟩ := exists_stretch
        (fromDay_nonempty ⟨by omega, by omega⟩ hstart) ⟨d, hbefore⟩
      have ha : a.year = d.year - 1 := hs.first.1.1
      exact ⟨d.year - 1, a, b, hs, le_of_year_lt (by omega), hs.last.2 hbefore⟩

end DateSpan

/-! ## The dates that the rule closes -/

namespace ClosureRule

/-- **A span closes stretches of the calendar.** Away from the two ends of the calendar, a rule for
one span closes a date exactly if, for some year, the date lies between the first date of the year
at or after the start and the last date at or before the end, in that year or, for a span that runs
past the new year, in the next. -/
theorem under_closes_span (s : DateSpan) (hstart : s.start.IsValid) (hfinish : s.finish.IsValid)
    (holidays : HolidayCalendar) (d : Date) (hfirst : firstYear < d.year)
    (hlast : d.year < lastYear) :
    ((ClosureRule.dated [] [s]).closes d).under holidays = true ↔
      ∃ (y : Int) (a b : Date), s.Stretch y a b ∧ a ≤ d ∧ d ≤ b := by
  have hcloses : ((ClosureRule.dated [] [s]).closes d).under holidays =
      s.includes (MonthDay.ofDate d) := by
    simp [closes, triggers]
  rw [hcloses]
  constructor
  · exact DateSpan.exists_stretch_of_includes hstart hfinish hfirst hlast
  · rintro ⟨y, a, b, hs, had, hdb⟩
    exact hs.includes_of_le had hdb

/-- The span from the 31st of December to the 29th of February closes the last day of February 2027,
a year that has no 29th of February. -/
theorem under_closes_span_of_common_year :
    (⟨12, 31⟩ : MonthDay).IsValid ∧ (⟨2, 29⟩ : MonthDay).IsValid ∧
      ∃ (y : Int) (a b : Date), DateSpan.Stretch ⟨⟨12, 31⟩, ⟨2, 29⟩⟩ y a b ∧
        a ≤ ⟨2027, 2, 28, by decide⟩ ∧ ⟨2027, 2, 28, by decide⟩ ≤ b :=
  ⟨rfl, rfl, (under_closes_span ⟨⟨12, 31⟩, ⟨2, 29⟩⟩ rfl rfl (fun _ => false)
    ⟨2027, 2, 28, by decide⟩ (by decide) (by decide)).1 (by decide)⟩

end ClosureRule

end OpeningHours
