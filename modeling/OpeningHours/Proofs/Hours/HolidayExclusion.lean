import Mathlib.Data.List.Basic
import OpeningHours.Proofs.Calendar.WeekdayDates
import OpeningHours.Proofs.Hours.RangeSegment
import OpeningHours.Proofs.Hours.Timeline
import OpeningHours.Proofs.Scope.DayPhrase

/-!
# Holidays excluded behind a range

The words `(祝日を除く)` behind a range of clock times take the public holidays away from its window.
They name no weekdays, and the window takes over the days of a parenthetical as a whole: behind
`月~金 9:00~17:00` they take the weekdays of the window away as well. The window is then in force on
every day but holidays.

* `DayHours` — weekdays with one range of clock times, with and without the exclusion;
* `exists_ofText_text`, `exists_ofText_textExcluding` — the windows that both texts are read as;
* **`narrows_iff`** — the exclusion narrows the hours at every moment and under every calendar of
  holidays exactly if the weekdays are all seven, or no window is read at all.
-/

namespace OpeningHours

open Pattern

/-- Opening hours on some weekdays. -/
structure DayHours where
  phrase : DayPhrase
  range : ColonRange

/-- The words that exclude holidays. -/
def exclusion : Text :=
  "(祝日を除く)".toList

/-- The window on the given weekdays, or on every weekday, holidays left out. -/
def TimeWindow.exceptHolidays (w : TimeWindow) (days : Option WeekdaySet) : TimeWindow :=
  { w with days, includesHolidays := false }

/-- The characters of phrases for weekdays. -/
def phraseAlphabet : List Char :=
  ['月', '火', '水', '木', '金', '土', '日', '・', '~', '平', '週', '末']

theorem DayPhrase.text_subset (q : DayPhrase) : q.text ⊆ phraseAlphabet := by
  have hkanji (d : Weekday) : d.kanji ∈ phraseAlphabet := by cases d <;> decide
  cases q with
  | list days ne =>
    refine Text.intercalate_subset (by decide) fun t ht => ?_
    obtain ⟨d, -, rfl⟩ := List.mem_map.1 ht
    exact List.cons_subset.2 ⟨hkanji d, List.nil_subset _⟩
  | range first last =>
    exact List.cons_subset.2 ⟨hkanji first, List.cons_subset.2 ⟨by decide,
      List.cons_subset.2 ⟨hkanji last, List.nil_subset _⟩⟩⟩
  | workdays => decide
  | weekend => decide

theorem DayPhrase.text_ne_nil (q : DayPhrase) : q.text ≠ [] := by
  cases q with
  | list days ne =>
    refine Text.intercalate_induction (P := (· ≠ [])) (fun t u _ _ => by simp) (by simpa using ne)
      fun t ht => ?_
    obtain ⟨d, -, rfl⟩ := List.mem_map.1 ht
    simp
  | range first last => simp [text]
  | workdays => decide
  | weekend => decide

namespace DayHours

/-- The hours as they are written. -/
def text (h : DayHours) : Text :=
  h.phrase.text ++ ' ' :: h.range.text

/-- The hours with holidays excluded behind the range. -/
def textExcluding (h : DayHours) : Text :=
  h.phrase.text ++ ' ' :: (h.range.text ++ exclusion)

/-- The window that is read: that of the range on the weekdays of the phrase. -/
def window? (h : DayHours) : Option TimeWindow :=
  h.range.window?.map (·.exceptHolidays (some h.phrase.days))

/-- The window that is read of the hours with holidays excluded. It has no weekdays. -/
def windowExcluding? (h : DayHours) : Option TimeWindow :=
  h.range.window?.map (·.exceptHolidays none)

variable (h : DayHours)

/-! ## Reading both texts -/

/-- The characters of both texts. -/
def alphabet : List Char :=
  phraseAlphabet ++ ' ' :: (segmentAlphabet ++ exclusion)

theorem range_append_subset {rest : Text} (hrest : rest ⊆ exclusion) :
    h.range.text ++ rest ⊆ segmentAlphabet ++ exclusion :=
  List.append_subset.2 ⟨List.subset_append_of_subset_left _ h.range.text_subset,
    List.subset_append_of_subset_right _ hrest⟩

theorem append_subset {rest : Text} (hrest : rest ⊆ exclusion) :
    h.phrase.text ++ ' ' :: (h.range.text ++ rest) ⊆ alphabet := by
  have hphrase : h.phrase.text ⊆ alphabet :=
    List.subset_append_of_subset_left _ h.phrase.text_subset
  have hrange : h.range.text ++ rest ⊆ alphabet := by
    refine List.subset_append_of_subset_right _ ?_
    exact fun c hc => List.mem_cons_of_mem _ (h.range_append_subset hrest hc)
  exact List.append_subset.2 ⟨hphrase, List.cons_subset.2 ⟨by decide, hrange⟩⟩

theorem tidy_append {rest : Text} (hrest : rest ⊆ exclusion) :
    Text.Tidy (h.phrase.text ++ ' ' :: (h.range.text ++ rest)) := by
  have hmark : alphabet.all (fun c => !Text.isListMark c) = true := by decide
  have hphrase : Text.Tidy h.phrase.text :=
    .of_subset (by decide) h.phrase.text_subset h.phrase.text_ne_nil
  have hrange : Text.Tidy (h.range.text ++ rest) :=
    .of_subset (by decide) (h.range_append_subset hrest) (by simp [ColonRange.text])
  refine hphrase.space_of_no_mark hrange fun c hc => ?_
  have hc' : c ∈ h.phrase.text ++ ' ' :: (h.range.text ++ rest) := by
    rcases List.mem_append.1 hc with hc | hc
    · exact List.mem_append_left _ hc
    · exact List.mem_append_right _ (List.mem_cons_of_mem _ hc)
  simpa using List.all_eq_true.1 hmark c (h.append_subset hrest hc')

theorem not_isDigit_phrase {c : Char} (hc : c ∈ h.phrase.text ++ [' ']) : c.isDigit = false := by
  have hall : (phraseAlphabet ++ [' ']).all (fun c => !c.isDigit) = true := by decide
  have hsub : h.phrase.text ++ [' '] ⊆ phraseAlphabet ++ [' '] :=
    List.append_subset.2 ⟨List.subset_append_of_subset_left _ h.phrase.text_subset,
      List.subset_append_right _ _⟩
  simpa using List.all_eq_true.1 hall c (hsub hc)

/-- What is read of the hours with a parenthetical, or nothing, behind the range. -/
theorem ofText_append {rest : Text} {parenthetical : Option Text} (hrest : rest ⊆ exclusion)
    (huntil : (word "まで").Fails rest) (hafter : afterRange rest = (parenthetical, [])) :
    ∃ notes, OpeningTimes.ofText (some (h.phrase.text ++ ' ' :: (h.range.text ++ rest))) =
      let windows := (h.range.window?.map
        (finishWindow { days := some { weekdays := h.phrase.days } } [] parenthetical)).toList
      { raw := some (h.phrase.text ++ ' ' :: (h.range.text ++ rest))
        normalized := some (h.phrase.text ++ ' ' :: (h.range.text ++ rest))
        windows, isUnknown := windows.isEmpty, notes } := by
  have htidy := h.tidy_append hrest
  have hplain : h.phrase.text ++ ' ' :: (h.range.text ++ rest) ⊆ plainAlphabet :=
    List.Subset.trans (h.append_subset hrest) (by decide)
  obtain ⟨left, hdays, hleft⟩ := h.phrase.extractDays_text
  have hextract := Qualifiers.extract_eq (extractMonths_of_no_digit fun _ => h.not_isDigit_phrase) hdays
  have hskip : Wording.timeRange.Skips (h.phrase.text ++ [' ']) (h.range.text ++ rest) :=
    skips_of_mayStart (fun c hc => by rw [mayStart_timeRange, h.not_isDigit_phrase hc]) _
  have hassoc : h.phrase.text ++ ' ' :: (h.range.text ++ rest) =
      (h.phrase.text ++ [' ']) ++ (h.range.text ++ rest) := by simp
  have hread := Segment.read_range (by rw [← hassoc]; exact hplain) (by rw [← hassoc]; exact htidy)
    (by rw [hextract]; exact Text.remainder?_eq_none hleft) hskip huntil hafter {}
  rw [← hassoc, hextract] at hread
  rw [OpeningTimes.ofText_of_plain htidy hplain, OpeningTimes.readStatements_of_no_mark
    (h.append_subset hrest) (by decide) htidy.not_isAllBlank, OpeningTimes.readSegments, hread]
  cases h.range.window? with
  | none => exact ⟨_, rfl⟩
  | some w => exact ⟨_, rfl⟩

/-- A window between two written times has no scope and no notes, and it runs on from its start. -/
theorem window?_spec {r : ColonRange} {w : TimeWindow} (hw : r.window? = some w) :
    w.months = [] ∧ w.days = none ∧ w.notes = [] ∧
      ∃ finish, w.finish = some finish ∧
        (w.crossesMidnight = true ∨ w.start.minuteOfDay < finish.minuteOfDay) := by
  cases hstart : r.start.time? with
  | none => simp [ColonRange.window?, hstart] at hw
  | some start =>
    cases hfinish : r.finish.time? with
    | none => simp [ColonRange.window?, hstart, hfinish] at hw
    | some finish =>
      obtain rfl : { TimeWindow.between start.1 (some finish.1) with
          crossesMidnight := (TimeWindow.between start.1 (some finish.1)).crossesMidnight ||
            finish.2 } = w := by
        simpa [ColonRange.window?, hstart, hfinish] using hw
      refine ⟨rfl, rfl, rfl, finish.1, rfl, ?_⟩
      simp only [TimeWindow.between, Option.any_some, Bool.or_eq_true, decide_eq_true_eq]
      omega

theorem exists_ofText_text : ∃ notes, OpeningTimes.ofText (some h.text) =
    { raw := some h.text, normalized := some h.text, windows := h.window?.toList,
      isUnknown := h.window?.toList.isEmpty, notes } := by
  obtain ⟨notes, hread⟩ := h.ofText_append (List.nil_subset _) (fails_word rfl) rfl
  have hwindow : h.range.window?.map
      (finishWindow { days := some { weekdays := h.phrase.days } } [] none) = h.window? := by
    rw [window?]
    refine Option.map_congr fun w hw => ?_
    obtain ⟨hmonths, -, hnotes, -⟩ := window?_spec hw
    simp [TimeWindow.exceptHolidays, finishWindow, Scope.apply, TimeWindow.onDays,
      TimeWindow.daysOf, h.phrase.isEmpty_days, TimeWindow.addNotes, hnotes, ← hmonths]
  rw [hwindow, List.append_nil] at hread
  exact ⟨notes, hread⟩

theorem exists_ofText_textExcluding : ∃ notes, OpeningTimes.ofText (some h.textExcluding) =
    { raw := some h.textExcluding, normalized := some h.textExcluding,
      windows := h.windowExcluding?.toList, isUnknown := h.windowExcluding?.toList.isEmpty,
      notes } := by
  have hafter : afterRange exclusion = (some "祝日を除く".toList, []) := by decide
  have htrailer : Trailer.read "祝日を除く".toList =
      { qualifiers := { days := some { holidays := .excluded } } } := by decide
  obtain ⟨notes, hread⟩ := h.ofText_append (List.Subset.refl _) (fails_word rfl) hafter
  have hwindow : h.range.window?.map
      (finishWindow { days := some { weekdays := h.phrase.days } } []
        (some "祝日を除く".toList)) = h.windowExcluding? := by
    rw [windowExcluding?]
    refine Option.map_congr fun w hw => ?_
    obtain ⟨hmonths, -, hnotes, -⟩ := window?_spec hw
    have hempty : WeekdaySet.empty.isEmpty = true := rfl
    show (TimeWindow.qualify _ (Trailer.read "祝日を除く".toList).qualifiers).addNotes
      ([] ++ (Trailer.read "祝日を除く".toList).note.toList) = _
    rw [htrailer]
    simp [TimeWindow.exceptHolidays, Scope.apply, TimeWindow.qualify, TimeWindow.onDays,
      TimeWindow.daysOf, TimeWindow.addNotes, hnotes, ← hmonths, hempty]
  rw [hwindow] at hread
  exact ⟨notes, hread⟩

/-! ## What the exclusion does to the hours -/

/-- Without a word about never or always opening, a text is surely open exactly in its windows. -/
theorem under_openState_eq_yes {t : OpeningTimes} (hclosed : t.isClosed = false)
    (halways : t.isAroundTheClock = false) (holidays : HolidayCalendar) (m : Moment) :
    (t.openState m).under holidays = .yes ↔
      ∃ w ∈ t.windows, (w.contains m).under holidays = .yes := by
  rw [OpeningTimes.openState, hclosed, halways]
  cases hw : t.windows with
  | nil => simp
  | cons w ws => simp [HolidayQuery.under_strongest_eq_yes]

/-- A window of the whole year that leaves out holidays is open in its runs from the other dates of
its weekdays. -/
theorem under_contains_exceptHolidays {w : TimeWindow} {finish : ClockTime}
    (hmonths : w.months = []) (hfinish : w.finish = some finish) (days : Option WeekdaySet)
    (holidays : HolidayCalendar) (m : Moment) :
    ((w.exceptHolidays days).contains m).under holidays = .yes ↔
      ∃ date, (holidays date = false ∧ days.all (·.contains date.weekday) = true) ∧
        w.Runs finish date m := by
  have happlies (date : Date) : ((w.exceptHolidays days).appliesOn date).under holidays = true ↔
      holidays date = false ∧ days.all (·.contains date.weekday) = true := by
    have hseason : (w.exceptHolidays days).inSeason date.month = true := by
      simp [TimeWindow.inSeason, TimeWindow.exceptHolidays, hmonths]
    rw [TimeWindow.under_appliesOn, hseason]
    cases holidays date <;> simp [TimeWindow.exceptHolidays, TimeWindow.onWeekday]
  have hfinish' : (w.exceptHolidays days).finish = some finish := hfinish
  rw [TimeWindow.under_contains_eq_yes_iff holidays hfinish']
  exact exists_congr fun date => and_congr (happlies date) Iff.rfl

/-- A weekday that the phrase does not name is open all the same where holidays are excluded. -/
theorem exists_moment_of_not_contains {w : TimeWindow} (hw : h.range.window? = some w) {d : Weekday}
    (hd : h.phrase.days.contains d = false) :
    ∃ holidays m, ((w.exceptHolidays none).contains m).under holidays = .yes ∧
      ((w.exceptHolidays (some h.phrase.days)).contains m).under holidays ≠ .yes := by
  obtain ⟨hmonths, -, -, finish, hfinish, hruns⟩ := window?_spec hw
  obtain ⟨date, rfl⟩ := Date.exists_weekday_eq d
  -- Every date but this one is a holiday, so no other run can hold the moment.
  refine ⟨fun e => decide (e ≠ date), ⟨date, w.start, 0⟩, ?_, ?_⟩
  · rw [under_contains_exceptHolidays hmonths hfinish]
    refine ⟨date, ⟨by simp, rfl⟩, ?_⟩
    exact (TimeWindow.runs_today w finish ⟨date, w.start, 0⟩).2 ⟨Nat.le_refl _, hruns⟩
  · rw [Ne, under_contains_exceptHolidays hmonths hfinish]
    rintro ⟨e, ⟨hholiday, hweekday⟩, -⟩
    obtain rfl : e = date := by simpa using hholiday
    rw [Option.all_some, hd] at hweekday
    exact Bool.false_ne_true hweekday

/-- With all seven weekdays the exclusion changes nothing. -/
theorem under_contains_of_every (hevery : h.phrase.days = .every) {w : TimeWindow}
    (hw : h.range.window? = some w) (holidays : HolidayCalendar) (m : Moment) :
    ((w.exceptHolidays none).contains m).under holidays = .yes ↔
      ((w.exceptHolidays (some h.phrase.days)).contains m).under holidays = .yes := by
  obtain ⟨hmonths, -, -, finish, hfinish, -⟩ := window?_spec hw
  rw [under_contains_exceptHolidays hmonths hfinish, under_contains_exceptHolidays hmonths hfinish]
  simp [hevery, WeekdaySet.every]

theorem under_openState_text (holidays : HolidayCalendar) (m : Moment) :
    ((OpeningTimes.ofText (some h.text)).openState m).under holidays = .yes ↔
      ∃ w, h.window? = some w ∧ (w.contains m).under holidays = .yes := by
  obtain ⟨notes, hread⟩ := h.exists_ofText_text
  rw [hread, under_openState_eq_yes rfl rfl]
  simp

theorem under_openState_textExcluding (holidays : HolidayCalendar) (m : Moment) :
    ((OpeningTimes.ofText (some h.textExcluding)).openState m).under holidays = .yes ↔
      ∃ w, h.windowExcluding? = some w ∧ (w.contains m).under holidays = .yes := by
  obtain ⟨notes, hread⟩ := h.exists_ofText_textExcluding
  rw [hread, under_openState_eq_yes rfl rfl]
  simp

/-- Holidays are excluded in any case. -/
theorem not_appliesOn_holiday {w : TimeWindow} (hw : w ∈ h.windowExcluding?.toList)
    {holidays : HolidayCalendar} {date : Date} (hdate : holidays date = true) :
    (w.appliesOn date).under holidays = false := by
  obtain ⟨v, -, rfl⟩ : ∃ v, h.range.window? = some v ∧ v.exceptHolidays none = w := by
    simpa [windowExcluding?] using hw
  rw [TimeWindow.under_appliesOn, hdate]
  simp [TimeWindow.exceptHolidays]

/-- Where a weekday is left out, the exclusion opens the facility somewhere. -/
theorem exists_moment_of_ne_every {w : TimeWindow} (hw : h.range.window? = some w)
    (hdays : h.phrase.days ≠ .every) :
    ∃ holidays m,
      ((OpeningTimes.ofText (some h.textExcluding)).openState m).under holidays = .yes ∧
      ((OpeningTimes.ofText (some h.text)).openState m).under holidays ≠ .yes := by
  obtain ⟨d, hd⟩ : ∃ d, h.phrase.days.contains d = false := by
    by_contra hall
    refine hdays (WeekdaySet.ext_contains fun d => ?_)
    have hd : h.phrase.days.contains d = true := by
      by_contra hd
      exact hall ⟨d, by simpa using hd⟩
    simp [hd, WeekdaySet.every]
  obtain ⟨holidays, m, hyes, hno⟩ := h.exists_moment_of_not_contains hw hd
  refine ⟨holidays, m, ?_, ?_⟩
  · exact (h.under_openState_textExcluding holidays m).2
      ⟨_, by rw [windowExcluding?, hw]; rfl, hyes⟩
  · rw [Ne, h.under_openState_text]
    rintro ⟨v, hv, hcontains⟩
    rw [window?, hw] at hv
    obtain rfl := Option.some.inj hv
    exact hno hcontains

/-- **An exclusion of holidays behind a range drops the weekdays of the window.** The window of the
hours as written has the weekdays of the phrase; the window of the hours with the exclusion has
none, and it never applies on a holiday. So the exclusion narrows the hours under every calendar
exactly if no weekday is left out of the phrase, or the range gives no window. -/
theorem narrows_iff :
    (OpeningTimes.ofText (some h.text)).windows = h.window?.toList ∧
    (OpeningTimes.ofText (some h.textExcluding)).windows = h.windowExcluding?.toList ∧
    (∀ w ∈ (OpeningTimes.ofText (some h.textExcluding)).windows,
      ∀ (holidays : HolidayCalendar) (date : Date), holidays date = true →
        (w.appliesOn date).under holidays = false) ∧
    ((∀ (holidays : HolidayCalendar) (m : Moment),
        ((OpeningTimes.ofText (some h.textExcluding)).openState m).under holidays = .yes →
          ((OpeningTimes.ofText (some h.text)).openState m).under holidays = .yes) ↔
      h.range.window? = none ∨ h.phrase.days = .every) := by
  obtain ⟨notes, hplain⟩ := h.exists_ofText_text
  obtain ⟨notes', hexcluding⟩ := h.exists_ofText_textExcluding
  refine ⟨by rw [hplain], by rw [hexcluding], ?_, ?_⟩
  · rw [hexcluding]
    intro w hw holidays date hdate
    exact h.not_appliesOn_holiday hw hdate
  · constructor
    · intro hnarrows
      by_contra hnot
      obtain ⟨hsome, hdays⟩ := not_or.1 hnot
      obtain ⟨w, hw⟩ := Option.ne_none_iff_exists'.1 hsome
      obtain ⟨holidays, m, hyes, hno⟩ := h.exists_moment_of_ne_every hw hdays
      exact hno (hnarrows holidays m hyes)
    · rintro hcase holidays m hyes
      obtain ⟨v, hv, hcontains⟩ := (h.under_openState_textExcluding holidays m).1 hyes
      rcases hcase with hnone | hevery
      · simp [windowExcluding?, hnone] at hv
      · obtain ⟨w, hw, rfl⟩ : ∃ w, h.range.window? = some w ∧ w.exceptHolidays none = v := by
          simpa [windowExcluding?] using hv
        refine (h.under_openState_text holidays m).2 ⟨_, by rw [window?, hw]; rfl, ?_⟩
        exact (h.under_contains_of_every hevery hw holidays m).1 hcontains

/-- Mondays from midnight to one o'clock. -/
def mondays : DayHours where
  phrase := .list [.mon] (List.cons_ne_nil _ _)
  range := ⟨⟨.one ⟨'0', by decide⟩, ⟨'0', by decide⟩, ⟨'0', by decide⟩⟩,
    ⟨.one ⟨'1', by decide⟩, ⟨'0', by decide⟩, ⟨'0', by decide⟩⟩⟩

/-- The exclusion opens a facility of Mondays on a Tuesday that is no holiday, and its window has
lost the weekdays. -/
theorem mondays_excluding_opens_tuesday :
    mondays.text = "月 0:00~1:00".toList ∧
    mondays.textExcluding = "月 0:00~1:00(祝日を除く)".toList ∧
    ((OpeningTimes.ofText (some mondays.textExcluding)).openState
      ⟨⟨2026, 1, 13, by decide⟩, ⟨0, by decide⟩, 0⟩).under (fun _ => false) = .yes ∧
    ((OpeningTimes.ofText (some mondays.text)).openState
      ⟨⟨2026, 1, 13, by decide⟩, ⟨0, by decide⟩, 0⟩).under (fun _ => false) ≠ .yes ∧
    (OpeningTimes.ofText (some mondays.text)).windows.map TimeWindow.days =
      [some (.single .mon)] ∧
    (OpeningTimes.ofText (some mondays.textExcluding)).windows.map TimeWindow.days = [none] := by
  obtain ⟨notes, hplain⟩ := mondays.exists_ofText_text
  obtain ⟨notes', hexcluding⟩ := mondays.exists_ofText_textExcluding
  rw [hplain, hexcluding, Ne, under_openState_eq_yes rfl rfl, under_openState_eq_yes rfl rfl]
  dsimp only
  exact ⟨by decide, by decide, by decide, by decide, by decide, by decide⟩

end DayHours

end OpeningHours
