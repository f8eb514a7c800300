import Mathlib.Data.List.Basic
import OpeningHours.Proofs.Hours.RangeSegment
import OpeningHours.Proofs.Hours.Timeline

/-!
# Hours after midnight as they are written

Texts count the hours after midnight on from 24, so `18:00~25:30` ends at half past one on the
following day. A range that is written so means one unbroken stretch of minutes, counted from the
start of its day. Reading folds both times back into the day; that the end belongs to the following
day is kept in the window, that the start does is not.

* `ColonTime.written`, `WrittenRange`: times and ranges with their minutes as they are written;
* `WrittenRange.window`, `ofText_eq`: the one window that the text of such a range is read as;
* `runs_window_iff`: the run of this window, in written minutes;
* **`opens_as_written_iff`**: the hours are those that are written exactly if the start is written
  before 24:00.
-/

namespace OpeningHours

open Pattern

/-! ## Written times -/

namespace ColonTime

/-- The minutes from the start of the day that are written. -/
def written (t : ColonTime) : Nat :=
  60 * t.hour.value + t.minute

/-- The written time folded back into the day. -/
def folded (t : ColonTime) : ClockTime :=
  ⟨t.written % 1440, Nat.mod_lt _ (by decide)⟩

/-- Every time up to 47:59 is read, folded back, with the day that it belongs to. -/
theorem time?_eq {t : ColonTime} (hhour : t.hour.value ≤ 47) (hminute : t.minute < 60) :
    t.time? = some (t.folded, decide (1440 ≤ t.written)) := by
  have hexists : t.hour.value % 24 < 24 ∧ t.minute < 60 := ⟨Nat.mod_lt _ (by decide), hminute⟩
  have hfold : 60 * (t.hour.value % 24) + t.minute = t.written % 1440 := by
    rw [written]
    omega
  have hday : (24 ≤ t.hour.value) = (1440 ≤ t.written) := by
    rw [written, eq_iff_iff]
    omega
  rw [time?, ClockTime.ofWritten?, if_pos hhour, ClockTime.ofHourMinute?, dif_pos hexists]
  simp only [hfold, hday, Option.map_some, folded]

end ColonTime

/-- A range between two times up to 47:59 that is written to end after its start. -/
structure WrittenRange extends ColonRange where
  start_hour : start.hour.value ≤ 47
  start_minute : start.minute < 60
  finish_hour : finish.hour.value ≤ 47
  finish_minute : finish.minute < 60
  ascending : start.written < finish.written

namespace WrittenRange

variable (r : WrittenRange)

/-- The time that is written, on the day that starts with the date, holds the moment. -/
def WrittenOn (d : Date) (m : Moment) : Prop :=
  d.firstSecond + 60 * r.start.written ≤ m.absoluteSecond ∧
    m.absoluteSecond < d.firstSecond + 60 * r.finish.written

/-- The time from the start folded back into the day to the end as it is written holds the
moment. -/
def FoldedOn (d : Date) (m : Moment) : Prop :=
  d.firstSecond + 60 * (r.start.written % 1440 : Nat) ≤ m.absoluteSecond ∧
    m.absoluteSecond < d.firstSecond + 60 * r.finish.written

/-- The every-day window that the range is read as. -/
def window : TimeWindow where
  start := r.start.folded
  finish := some r.finish.folded
  crossesMidnight := decide (1440 ≤ r.finish.written)

theorem finish_lt : r.finish.written < 2880 := by
  have hhour := r.finish_hour
  have hminute := r.finish_minute
  rw [ColonTime.written]
  omega

/-! ## Reading -/

theorem window?_eq : r.window? = some r.window := by
  have hstart := ColonTime.time?_eq r.start_hour r.start_minute
  have hfinish := ColonTime.time?_eq r.finish_hour r.finish_minute
  have hascending := r.ascending
  have hcross : (decide (r.finish.written % 1440 ≤ r.start.written % 1440) ||
      decide (1440 ≤ r.finish.written)) = decide (1440 ≤ r.finish.written) := by
    by_cases hlate : 1440 ≤ r.finish.written
    · simp [hlate]
    · simp only [hlate, decide_false, Bool.or_false, decide_eq_false_iff_not]
      omega
  simp [ColonRange.window?, hstart, hfinish, TimeWindow.between, window, ColonTime.folded, hcross]

/-- **The text of the range is read as its window** and nothing else. -/
theorem ofText_eq : OpeningTimes.ofText (some r.text) =
    { raw := some r.text, normalized := some r.text, windows := [r.window] } := by
  have hplain : r.text ⊆ plainAlphabet := List.Subset.trans r.text_subset (by decide)
  have hextract : Qualifiers.extract [] = ({}, []) := by decide
  have hsegment : Segment.read {} ([] ++ (r.text ++ [])) = _ :=
    Segment.read_range (t := []) (r := r.toColonRange) (by simpa using hplain)
      (by simpa using r.tidy_text) (by decide) trivial (fails_word rfl) rfl {}
  rw [List.nil_append, List.append_nil, hextract, r.window?_eq] at hsegment
  have hread : Segment.read {} r.text = (.windows [r.window], {}) := hsegment
  rw [OpeningTimes.ofText_of_plain r.tidy_text hplain, OpeningTimes.readStatements_of_no_mark
    r.text_subset (by decide) r.tidy_text.not_isAllBlank]
  simp [OpeningTimes.readSegments, hread]

/-! ## The hours that are read -/

/-- The window runs from the start folded back into the day to the end as it is written. -/
theorem runs_window_iff (d : Date) (m : Moment) :
    r.window.Runs r.finish.folded d m ↔ r.FoldedOn d m := by
  have hlt := r.finish_lt
  have hfinish : r.window.minutesUntil r.finish.folded = r.finish.written := by
    show r.finish.written % 1440 + (if decide (1440 ≤ r.finish.written) = true then 1440 else 0) = _
    simp only [decide_eq_true_eq]
    split <;> omega
  rw [TimeWindow.Runs, hfinish]
  exact Iff.rfl

theorem under_openState_text (holidays : HolidayCalendar) (m : Moment) :
    ((OpeningTimes.ofText (some r.text)).openState m).under holidays =
      (r.window.contains m).under holidays := by
  rw [r.ofText_eq]
  exact HolidayQuery.under_strongest_singleton holidays _

/-- The facility is open on every day from the folded start to the written end. -/
theorem under_openState_eq_yes_iff (holidays : HolidayCalendar) (m : Moment) :
    ((OpeningTimes.ofText (some r.text)).openState m).under holidays = .yes ↔
      ∃ d, r.FoldedOn d m := by
  have happlies (d : Date) : (r.window.appliesOn d).under holidays = true := by
    rw [TimeWindow.under_appliesOn]
    cases holidays d <;> rfl
  have hwindow := TimeWindow.under_contains_eq_yes_iff holidays (w := r.window) rfl m
  rw [r.under_openState_text, hwindow]
  exact exists_congr fun d => by rw [happlies, r.runs_window_iff, eq_self, true_and]

theorem under_openState_ne_unknown (holidays : HolidayCalendar) (m : Moment) :
    ((OpeningTimes.ofText (some r.text)).openState m).under holidays ≠ .unknown := by
  rw [r.under_openState_text]
  exact TimeWindow.under_contains_ne holidays r.window m

/-! ## Where they are the written ones -/

/-- The hours that are written, in minutes. -/
theorem writtenOn_iff (d : Date) (m : Moment) :
    r.WrittenOn d m ↔ 1440 * d.dayNumber + r.start.written ≤ 1440 * m.date.dayNumber + m.minute ∧
      1440 * m.date.dayNumber + m.minute < 1440 * d.dayNumber + r.finish.written := by
  rw [WrittenOn, TimeWindow.le_absoluteSecond_iff, TimeWindow.absoluteSecond_lt_iff]

/-- The last minute of a day lies in the folded hours of a late start, but not in the written
ones. -/
theorem foldedOn_lastMinute (hlate : 1440 ≤ r.start.written) {m : Moment} (hm : m.minute = 1439) :
    r.FoldedOn m.date m ∧ ∀ d, ¬ r.WrittenOn d m := by
  have hfinish := r.finish_lt
  have hascending := r.ascending
  constructor
  · rw [FoldedOn, TimeWindow.le_absoluteSecond_iff, TimeWindow.absoluteSecond_lt_iff, hm]
    omega
  · intro d hwritten
    rw [writtenOn_iff, hm] at hwritten
    omega

/-- **A written range opens at the folded start, whatever day the start belongs to.** Its text has
one every-day window and is never in doubt; the facility is open from the start folded back into the
day to the end as it is written. So it is open in the hours that are written, and in no others,
exactly if the start is written before 24:00. -/
theorem opens_as_written_iff :
    (OpeningTimes.ofText (some r.text)).windows = [r.window] ∧
    (∀ (holidays : HolidayCalendar) (m : Moment),
      ((OpeningTimes.ofText (some r.text)).openState m).under holidays ≠ .unknown ∧
      (((OpeningTimes.ofText (some r.text)).openState m).under holidays = .yes ↔
        ∃ d, r.FoldedOn d m)) ∧
    ((∀ (holidays : HolidayCalendar) (m : Moment),
        ((OpeningTimes.ofText (some r.text)).openState m).under holidays = .yes ↔
          ∃ d, r.WrittenOn d m) ↔
      r.start.written < 1440) := by
  refine ⟨by rw [r.ofText_eq], fun holidays m =>
    ⟨r.under_openState_ne_unknown holidays m, r.under_openState_eq_yes_iff holidays m⟩, ?_⟩
  constructor
  · intro hopens
    by_contra hlate
    have hlast : (⟨⟨2026, 1, 13, by decide⟩, ⟨1439, by decide⟩, 0⟩ : Moment).minute = 1439 := rfl
    obtain ⟨hfolded, hnot⟩ := r.foldedOn_lastMinute (Nat.not_lt.1 hlate) hlast
    have hyes := (r.under_openState_eq_yes_iff (fun _ => false) _).2 ⟨_, hfolded⟩
    obtain ⟨d, hwritten⟩ := (hopens _ _).1 hyes
    exact hnot d hwritten
  · intro hearly holidays m
    have hsame (d : Date) : r.FoldedOn d m ↔ r.WrittenOn d m := by
      rw [FoldedOn, WrittenOn, Nat.mod_eq_of_lt hearly]
    rw [r.under_openState_eq_yes_iff]
    exact exists_congr hsame

/-- Hours that start after midnight as they are written. -/
def smallHours : WrittenRange where
  start := ⟨.two (.of 2) (.of 5), .of 0, .of 0⟩
  finish := ⟨.two (.of 2) (.of 6), .of 0, .of 0⟩
  start_hour := by decide
  start_minute := by decide
  finish_hour := by decide
  finish_minute := by decide
  ascending := by decide

/-- Hours from one to two o'clock at night are open at noon. -/
theorem smallHours_open_at_noon :
    smallHours.text = "25:00~26:00".toList ∧
    ((OpeningTimes.ofText (some smallHours.text)).openState
      ⟨⟨2026, 1, 13, by decide⟩, ⟨720, by decide⟩, 0⟩).under (fun _ => false) = .yes ∧
    ¬ ∃ d, smallHours.WrittenOn d ⟨⟨2026, 1, 13, by decide⟩, ⟨720, by decide⟩, 0⟩ := by
  refine ⟨by decide, ?_, ?_⟩
  · rw [smallHours.under_openState_eq_yes_iff]
    exact ⟨⟨2026, 1, 13, by decide⟩, by decide, by decide⟩
  · rintro ⟨d, hwritten⟩
    have hstart : smallHours.start.written = 1500 := by decide
    have hfinish : smallHours.finish.written = 1560 := by decide
    rw [writtenOn_iff, hstart, hfinish] at hwritten
    simp only [Moment.minute] at hwritten
    omega

end WrittenRange

end OpeningHours
