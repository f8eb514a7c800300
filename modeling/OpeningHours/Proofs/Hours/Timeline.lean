import OpeningHours.Hours.Window
import OpeningHours.Proofs.Calendar.DayCount

/-!
# Windows on the line of time

`TimeWindow.contains` decides by minutes of the day and looks at no more than two dates. What a
window means is said on one unbroken line of seconds: on each date to which it applies the window
runs from its start to its end, and the end lies a day later if the window crosses midnight.

* `Moment.absoluteSecond`, `Date.firstSecond`: moments and dates on the line;
* `TimeWindow.Runs`: the moment lies in the run of the window that starts on a date;
* `runs_date`: a run reaches no further than the date after its own;
* **`under_contains_timeline`**: the decision is what the line says, for windows of any length and
  on every date of the calendar.
-/

namespace OpeningHours

/-- The second at which the date starts, counted from the start of the year 1. -/
def Date.firstSecond (d : Date) : Int :=
  86400 * d.dayNumber

/-- The number of seconds since the start of the year 1. -/
def Moment.absoluteSecond (m : Moment) : Int :=
  60 * m.absoluteMinute + m.second.val

namespace TimeWindow

/-- The length of the time between the start of a date and the end of the run that starts there. -/
def minutesUntil (w : TimeWindow) (finish : ClockTime) : Nat :=
  finish.minuteOfDay + if w.crossesMidnight then 1440 else 0

/-- The run of the window that starts on the date, up to but not including its end, holds the
moment. -/
def Runs (w : TimeWindow) (finish : ClockTime) (d : Date) (m : Moment) : Prop :=
  d.firstSecond + 60 * w.start.minuteOfDay ≤ m.absoluteSecond ∧
    m.absoluteSecond < d.firstSecond + 60 * w.minutesUntil finish

/-- The moment is no earlier than the start of the window on the moment's own date. -/
def Started (w : TimeWindow) (m : Moment) : Prop :=
  m.date.firstSecond + 60 * w.start.minuteOfDay ≤ m.absoluteSecond

/-! ## Seconds and minutes -/

theorem absoluteSecond_eq (m : Moment) :
    m.absoluteSecond = m.date.firstSecond + 60 * m.minute + m.second.val := by
  simp only [Moment.absoluteSecond, Moment.absoluteMinute, Date.firstSecond]
  omega

/-- The seconds of a moment do not matter for a comparison with a full minute. -/
theorem le_absoluteSecond_iff (m : Moment) (d : Date) (n : Nat) :
    d.firstSecond + 60 * n ≤ m.absoluteSecond ↔
      1440 * d.dayNumber + n ≤ 1440 * m.date.dayNumber + m.minute := by
  have hsec := m.second.isLt
  rw [absoluteSecond_eq]
  simp only [Date.firstSecond]
  omega

theorem absoluteSecond_lt_iff (m : Moment) (d : Date) (n : Nat) :
    m.absoluteSecond < d.firstSecond + 60 * n ↔
      1440 * m.date.dayNumber + m.minute < 1440 * d.dayNumber + n := by
  rw [← not_le, le_absoluteSecond_iff, not_le]

theorem started_iff (w : TimeWindow) (m : Moment) :
    w.Started m ↔ w.start.minuteOfDay ≤ m.minute := by
  rw [Started, le_absoluteSecond_iff]
  omega

theorem runs_iff (w : TimeWindow) (finish : ClockTime) (d : Date) (m : Moment) :
    w.Runs finish d m ↔
      1440 * d.dayNumber + w.start.minuteOfDay ≤ 1440 * m.date.dayNumber + m.minute ∧
        1440 * m.date.dayNumber + m.minute < 1440 * d.dayNumber + w.minutesUntil finish := by
  rw [Runs, le_absoluteSecond_iff, absoluteSecond_lt_iff]

/-! ## Which runs can hold a moment -/

/-- A run that holds the moment started on the moment's date or on the date before. -/
theorem runs_date {w : TimeWindow} {finish : ClockTime} {d : Date} {m : Moment}
    (h : w.Runs finish d m) :
    d = m.date ∨ (w.crossesMidnight = true ∧ m.date.prev? = some d) := by
  obtain ⟨hstart, hend⟩ := (runs_iff w finish d m).1 h
  have hfinish := finish.lt
  have hminute : m.minute < 1440 := m.time.lt
  rw [minutesUntil] at hend
  split at hend
  · next hc =>
    rcases eq_or_ne d.dayNumber m.date.dayNumber with heq | hne
    · exact .inl (Date.dayNumber_injective heq)
    · exact .inr ⟨hc, Date.prev?_eq_some_iff.2 (by omega)⟩
  · exact .inl (Date.dayNumber_injective (by omega))

/-- The run of the moment's own date. A run that crosses midnight goes on to the end of that
date. -/
theorem runs_today (w : TimeWindow) (finish : ClockTime) (m : Moment) :
    w.Runs finish m.date m ↔ w.start.minuteOfDay ≤ m.minute ∧
      (w.crossesMidnight = true ∨ m.minute < finish.minuteOfDay) := by
  have hminute : m.minute < 1440 := m.time.lt
  rw [runs_iff, minutesUntil]
  cases w.crossesMidnight with
  | true => simp only [if_true, true_or, and_true]; omega
  | false => simp only [Bool.false_eq_true, if_false, false_or]; omega

/-- The run of the date before, which has always started. -/
theorem runs_yesterday {w : TimeWindow} (finish : ClockTime) {m : Moment} {d : Date}
    (hc : w.crossesMidnight = true) (hd : m.date.prev? = some d) :
    w.Runs finish d m ↔ m.minute < finish.minuteOfDay := by
  have hday := Date.dayNumber_of_prev? hd
  have hstart := w.start.lt
  rw [runs_iff, minutesUntil, if_pos hc]
  omega

/-! ## The decision -/

/-- A window with an end is open exactly in its runs. -/
theorem under_contains_eq_yes_iff (holidays : HolidayCalendar) {w : TimeWindow}
    {finish : ClockTime} (hw : w.finish = some finish) (m : Moment) :
    (w.contains m).under holidays = .yes ↔
      ∃ d, (w.appliesOn d).under holidays = true ∧ w.Runs finish d m := by
  have hdates : (∃ d, (w.appliesOn d).under holidays = true ∧ w.Runs finish d m) ↔
      ((w.appliesOn m.date).under holidays = true ∧ w.Runs finish m.date m) ∨
        (w.crossesMidnight = true ∧ ∃ d, m.date.prev? = some d ∧
          (w.appliesOn d).under holidays = true ∧ w.Runs finish d m) := by
    constructor
    · rintro ⟨d, happ, hrun⟩
      rcases runs_date hrun with rfl | ⟨hc, hd⟩
      · exact .inl ⟨happ, hrun⟩
      · exact .inr ⟨hc, d, hd, happ, hrun⟩
    · rintro (⟨happ, hrun⟩ | ⟨-, d, -, happ, hrun⟩)
      · exact ⟨m.date, happ, hrun⟩
      · exact ⟨d, happ, hrun⟩
  rw [hdates, runs_today, contains, hw]
  by_cases hc : w.crossesMidnight = true
  · have hbefore : (m.minute < finish.minuteOfDay ∧ (w.appliedBefore m.date).under holidays = true) ↔
        ∃ d, m.date.prev? = some d ∧ (w.appliesOn d).under holidays = true ∧ w.Runs finish d m := by
      rw [appliedBefore]
      cases hp : m.date.prev? with
      | none => simp
      | some d =>
        have hrun := runs_yesterday finish hc hp
        simp only [Option.some.injEq, exists_eq_left', hrun]
        exact and_comm
    simp only [hc, if_true, HolidayQuery.under_map, Tristate.ofBool_eq_yes,
      HolidayQuery.under_any, List.any_cons, List.any_nil, HolidayQuery.under_onlyIf,
      Bool.or_false, Bool.or_eq_true, Bool.and_eq_true, decide_eq_true_eq, true_or, and_true,
      true_and, hbefore]
    exact or_congr_left and_comm
  · simp only [Bool.not_eq_true] at hc
    simp only [hc, Bool.false_eq_true, if_false, HolidayQuery.under_map, Tristate.ofBool_eq_yes,
      HolidayQuery.under_onlyIf, Bool.and_eq_true, decide_eq_true_eq, false_or, false_and, or_false]
    exact and_comm

/-- A window without an end is in doubt from its start to the end of the date. -/
theorem under_contains_eq_unknown_iff (holidays : HolidayCalendar) {w : TimeWindow}
    (hw : w.finish = none) (m : Moment) :
    (w.contains m).under holidays = .unknown ↔
      (w.appliesOn m.date).under holidays = true ∧ w.Started m := by
  rw [started_iff, contains, hw]
  simp only [HolidayQuery.under_bind, HolidayQuery.under_onlyIf, HolidayQuery.under_pure]
  cases happ : (w.appliesOn m.date).under holidays <;>
    by_cases hs : w.start.minuteOfDay ≤ m.minute <;> simp [hs]

/-- **The decision about a window is what the line of time says.** With an end the answer is never
unknown, and it is yes exactly in the runs of the window on the dates to which it applies. Without
one it is never yes, and it is unknown exactly from the start on, on dates to which it applies. -/
theorem under_contains_timeline (holidays : HolidayCalendar) (w : TimeWindow) (m : Moment) :
    match w.finish with
    | some finish =>
      (w.contains m).under holidays ≠ .unknown ∧
        ((w.contains m).under holidays = .yes ↔
          ∃ d : Date, (w.appliesOn d).under holidays = true ∧ w.Runs finish d m)
    | none =>
      (w.contains m).under holidays ≠ .yes ∧
        ((w.contains m).under holidays = .unknown ↔
          (w.appliesOn m.date).under holidays = true ∧ w.Started m) := by
  have hne := under_contains_ne holidays w m
  cases hw : w.finish with
  | some finish =>
    rw [hw, Option.isSome_some, if_pos rfl] at hne
    exact ⟨hne, under_contains_eq_yes_iff holidays hw m⟩
  | none =>
    rw [hw, Option.isSome_none, if_neg Bool.false_ne_true] at hne
    exact ⟨hne, under_contains_eq_unknown_iff holidays hw m⟩

end TimeWindow

end OpeningHours
