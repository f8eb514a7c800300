import OpeningHours.Hours.Reading
import OpeningHours.Holiday.Names
import OpeningHours.Proofs.Calendar.WeekdayDates
import OpeningHours.Proofs.Hours.Timeline
import OpeningHours.Proofs.Pattern.Extraction

/-!
# Well-formed windows

A window is put together in steps. A time range gives its times, the scope of the statement its
months and days; then the parenthetical behind the range and the text behind the last range may
rewrite the months and the days once more. Whatever a text is cut into and in whichever order these
steps come, the windows that are read are well formed, and a well-formed window is in force on some
date of every year.

* `MonthRange.IsValid`, `TimeWindow.WellFormed`: months that exist, and a window whose fields fit
  together;
* `Hit.wellFormed_window?`: the window of a time range is well formed;
* `TimeWindow.WellFormed.onDays`, `.qualify`, `.apply`, `.finishWindow`: each step keeps that;
* `wellFormed_readRanges`, `wellFormed_readSegments`: so do the ranges of a segment and the segments
  of a statement;
* `TimeWindow.WellFormed.exists_appliesOn`, `.under_contains_start`: a well-formed window applies on
  a date of each year, and where it applies it is not surely closed at its start;
* **`OpeningTimes.wellFormed_of_mem_windows`**: both for every window of every text.
-/

namespace OpeningHours

/-! ## Months that exist -/

/-- Both months of the range exist. -/
def MonthRange.IsValid (r : MonthRange) : Prop :=
  (1 ≤ r.first ∧ r.first ≤ 12) ∧ 1 ≤ r.last ∧ r.last ≤ 12

/-- All months of the ranges exist. -/
def ValidMonths (ranges : List MonthRange) : Prop :=
  ∀ r ∈ ranges, r.IsValid

variable {w : TimeWindow} {s : Scope} {q : Qualifiers} {t : Text} {ranges : List MonthRange}

theorem MonthRange.isValid_of_ofMonths? {first last : Nat} {r : MonthRange}
    (h : ofMonths? first last = some r) : r.IsValid := by
  have hmonths := isMonth_of_ofMonths? h
  simp only [isMonth, Bool.and_eq_true, decide_eq_true_eq] at hmonths
  exact hmonths

theorem validMonths_extractMonths (t : Text) : ValidMonths (extractMonths t).1 := by
  intro r hr
  rw [extractMonths] at hr
  rcases List.mem_append.1 hr with hrange | hmonth
  · obtain ⟨b, h, -, hread⟩ := Pattern.exists_hit_of_mem_filterMap_extract hrange
    exact MonthRange.isValid_of_ofMonths? hread
  · obtain ⟨b, h, -, hread⟩ := Pattern.exists_hit_of_mem_extract hmonth
    rw [Hit.oneMonth?] at hread
    split at hread
    · exact absurd hread (by simp)
    · exact MonthRange.isValid_of_ofMonths? hread

theorem validMonths_extract (t : Text) : ValidMonths (Qualifiers.extract t).1.months :=
  validMonths_extractMonths t

theorem validMonths_only? (h : Qualifiers.only? t = some q) : ValidMonths q.months := by
  rw [Qualifiers.only?] at h
  dsimp only at h
  split at h
  · obtain rfl := Option.some.inj h
    exact validMonths_extract t
  · exact absurd h (by simp)

theorem validMonths_trailer (t : Text) : ValidMonths (Trailer.read t).qualifiers.months := by
  rw [Trailer.read]
  cases h : Qualifiers.only? t with
  | none => exact fun r hr => absurd hr List.not_mem_nil
  | some q => exact validMonths_only? h

/-! ## Scopes -/

namespace Scope

/-- Months that are said replace those in force. -/
theorem validMonths_override (hs : ValidMonths s.months) (hq : ValidMonths q.months) :
    ValidMonths (if q.months.isEmpty then s.months else q.months) := by
  split
  · exact hs
  · exact hq

theorem validMonths_hold (hs : ValidMonths s.months) (hq : ValidMonths q.months) :
    ValidMonths (s.hold q).months :=
  validMonths_override hs hq

theorem validMonths_enter (hs : ValidMonths s.months) (hq : ValidMonths q.months) :
    ValidMonths (s.enter q).months :=
  validMonths_override hs hq

theorem validMonths_readBefore (hs : ValidMonths s.months) (t : Text) :
    ValidMonths (s.readBefore t).1.months := by
  rw [readBefore]
  split
  · exact hs
  · exact validMonths_enter hs (validMonths_extract t)

end Scope

/-! ## Windows whose fields fit together -/

namespace TimeWindow

/-- The fields of the window fit together. -/
structure WellFormed (w : TimeWindow) : Prop where
  months : ValidMonths w.months
  /-- A window without an end does not cross midnight. -/
  openEnd : w.finish = none → w.crossesMidnight = false
  /-- A window whose end does not come after its start crosses midnight. -/
  earlyEnd : ∀ finish, w.finish = some finish → finish.minuteOfDay ≤ w.start.minuteOfDay →
    w.crossesMidnight = true
  /-- A window without weekdays is one of holidays. -/
  days : ∀ set, w.days = some set → set.isEmpty = true → w.includesHolidays = true

theorem wellFormed_between (start : ClockTime) (finish : Option ClockTime) :
    (between start finish).WellFormed where
  months := fun r hr => absurd hr List.not_mem_nil
  openEnd := by
    intro h
    have hfinish : finish = none := h
    rw [between, hfinish]
    rfl
  earlyEnd := by
    intro f h hle
    have hfinish : finish = some f := h
    have hminutes : f.minuteOfDay ≤ start.minuteOfDay := hle
    rw [between, hfinish]
    simpa using hminutes
  days := fun set h => absurd h (by simp [between])

/-- An empty set of weekdays stands for holidays alone. -/
theorem holidays_of_daysOf {scope : DayScope} {set : WeekdaySet} (h : daysOf scope = some set)
    (hempty : set.isEmpty = true) : scope.holidays = .included := by
  rw [daysOf] at h
  split at h
  · next hne =>
    obtain rfl := Option.some.inj h
    rw [hempty] at hne
    exact absurd hne (by decide)
  · split at h
    · next hholidays => exact hholidays.1
    · exact absurd h (by simp)

namespace WellFormed

theorem withMonths (hw : w.WellFormed) (hr : ValidMonths ranges) :
    { w with months := ranges }.WellFormed :=
  ⟨hr, hw.openEnd, hw.earlyEnd, hw.days⟩

theorem onDays (hw : w.WellFormed) (scope : DayScope) : (w.onDays scope).WellFormed where
  months := hw.months
  openEnd := hw.openEnd
  earlyEnd := hw.earlyEnd
  days := by
    intro set hset hempty
    have hholidays := holidays_of_daysOf hset hempty
    rw [TimeWindow.onDays, hholidays]

theorem addNotes (hw : w.WellFormed) (notes : List Text) : (w.addNotes notes).WellFormed :=
  ⟨hw.months, hw.openEnd, hw.earlyEnd, hw.days⟩

theorem qualify (hw : w.WellFormed) (hq : ValidMonths q.months) : (w.qualify q).WellFormed := by
  have hmonths : (if q.months.isEmpty then w else { w with months := q.months }).WellFormed := by
    split
    · exact hw
    · exact hw.withMonths hq
  rw [TimeWindow.qualify]
  cases q.days with
  | none => exact hmonths
  | some scope => exact hmonths.onDays scope

theorem apply (hw : w.WellFormed) (hs : ValidMonths s.months) : (s.apply w).WellFormed := by
  rw [Scope.apply]
  cases s.days with
  | none => exact hw.withMonths hs
  | some scope => exact (hw.withMonths hs).onDays scope

theorem finishWindow (hw : w.WellFormed) (hs : ValidMonths s.months) (notes : List Text)
    (parenthetical : Option Text) : (finishWindow s notes parenthetical w).WellFormed := by
  cases parenthetical with
  | none => exact (hw.apply hs).addNotes _
  | some inside => exact ((hw.apply hs).qualify (validMonths_trailer inside)).addNotes _

end WellFormed

end TimeWindow

/-! ## Ranges -/

/-- **The window of a time range is well formed.** Words about the following day only add to its
crossing midnight, and a range that ends at sunset has no end that they could move. -/
theorem Hit.wellFormed_window? {h : Hit} (hw : h.window? = some w) : w.WellFormed := by
  rw [window?] at hw
  cases hstart : h.clock? Wording.startSlots with
  | none => simp [hstart] at hw
  | some start =>
    cases hsunset : h.has Wording.sunsetSlot with
    | true =>
      obtain rfl : TimeWindow.between start.1 none = w := by simpa [hstart, hsunset] using hw
      exact TimeWindow.wellFormed_between start.1 none
    | false =>
      cases hfinish : h.clock? Wording.finishSlots with
      | none => simp [hstart, hsunset, hfinish] at hw
      | some finish =>
        have hbetween := TimeWindow.wellFormed_between start.1 (some finish.1)
        obtain rfl : { TimeWindow.between start.1 (some finish.1) with
            crossesMidnight := (TimeWindow.between start.1 (some finish.1)).crossesMidnight ||
              finish.2 || h.has Wording.nextDaySlot } = w := by
          simpa [hstart, hsunset, hfinish] using hw
        refine ⟨hbetween.months, fun hnone => absurd hnone (by simp [TimeWindow.between]), ?_,
          hbetween.days⟩
        intro f hf hle
        have hcrosses := hbetween.earlyEnd f hf hle
        show (_ || _ || _) = true
        rw [hcrosses, Bool.true_or, Bool.true_or]

/-- What holds of the ranges that have been read: well-formed windows, and a scope whose months
exist. -/
structure RangeReading.WellFormed (r : RangeReading) : Prop where
  windows : ∀ w ∈ r.windows, w.WellFormed
  scope : ValidMonths r.scope.months

theorem readRanges_of_find?_eq_none (s : Scope) (hfind : Wording.timeRange.find? t = none) :
    readRanges s t = { scope := s, tail := t } := by
  rw [readRanges]
  split
  · rfl
  · next h => exact absurd (hfind.symm.trans h) (by simp)

/-- The first range of a text, and the ranges behind it under the scope that it has entered. -/
theorem readRanges_of_find? (s : Scope) {skipped : Text} {h : Hit}
    (hfind : Wording.timeRange.find? t = some (skipped, h)) :
    readRanges s t =
      let entered := s.readBefore skipped
      let after := afterRange h.rest
      let later := readRanges entered.1 after.2
      match h.window? with
      | some w => later.cons (some (finishWindow entered.1 entered.2 after.1 w)) []
      | none => later.cons none (entered.2 ++ [h.taken]) := by
  rw [readRanges]
  split
  · next h => exact absurd (h.symm.trans hfind) (by simp)
  · next skipped' h' hfind' =>
    obtain ⟨rfl, rfl⟩ : skipped' = skipped ∧ h' = h := by
      simpa using hfind'.symm.trans hfind
    rfl

/-- The ranges of a segment keep the scope valid, and under it their windows are well formed. -/
theorem wellFormed_readRanges (hs : ValidMonths s.months) (t : Text) :
    (readRanges s t).WellFormed := by
  induction s, t using readRanges.induct with
  | case1 s t hfind =>
    rw [readRanges_of_find?_eq_none s hfind]
    exact ⟨fun w hw => absurd hw List.not_mem_nil, hs⟩
  | case2 s t skipped h hfind entered after hlt w hw ih =>
    have hentered : ValidMonths entered.1.months := Scope.validMonths_readBefore hs skipped
    have hlater := ih hentered
    have hfirst := (Hit.wellFormed_window? hw).finishWindow hentered entered.2 after.1
    rw [readRanges_of_find? s hfind, hw]
    refine ⟨?_, hlater.scope⟩
    intro v hv
    rcases List.mem_cons.1 hv with rfl | hv
    · exact hfirst
    · exact hlater.windows v hv
  | case3 s t skipped h hfind entered after hlt hnone ih =>
    have hentered : ValidMonths entered.1.months := Scope.validMonths_readBefore hs skipped
    have hlater := ih hentered
    rw [readRanges_of_find? s hfind, hnone]
    exact ⟨hlater.windows, hlater.scope⟩

theorem wellFormed_noteLast (notes : List Text) (ws : List TimeWindow)
    (h : ∀ w ∈ ws, w.WellFormed) : ∀ w ∈ noteLast notes ws, w.WellFormed := by
  induction ws with
  | nil => exact h
  | cons w ws ih =>
    cases ws with
    | nil =>
      intro v hv
      obtain rfl := List.mem_singleton.1 hv
      exact (h w List.mem_cons_self).addNotes notes
    | cons u us =>
      intro v hv
      rcases List.mem_cons.1 hv with rfl | hv
      · exact h v List.mem_cons_self
      · exact ih (fun x hx => h x (List.mem_cons_of_mem w hx)) v hv

/-- What stands behind the last range and the last admission keep the windows well formed. -/
theorem RangeReading.WellFormed.close {r : RangeReading} (h : r.WellFormed)
    (lastAdmission : Option ClockTime) : ∀ w ∈ r.close lastAdmission, w.WellFormed := by
  refine wellFormed_noteLast _ _ ?_
  intro v hv
  obtain ⟨w, hw, rfl⟩ := List.mem_map.1 hv
  have hqualified := (h.windows w hw).qualify (validMonths_trailer r.tail)
  exact ⟨hqualified.months, hqualified.openEnd, hqualified.earlyEnd, hqualified.days⟩

/-! ## Segments, statements, texts -/

/-- The windows that a segment gives. -/
def Segment.said : Segment → List TimeWindow
  | .silent => []
  | .windows ws => ws
  | .note _ => []

/-- A segment gives well-formed windows and leaves a scope whose months exist. -/
theorem wellFormed_read (hs : ValidMonths s.months) (t : Text) :
    (∀ w ∈ (Segment.read s t).1.said, w.WellFormed) ∧
      ValidMonths (Segment.read s t).2.months := by
  have hnone : ∀ w ∈ ([] : List TimeWindow), w.WellFormed :=
    fun w hw => absurd hw List.not_mem_nil
  rw [Segment.read]
  dsimp only
  split
  · exact ⟨hnone, hs⟩
  · split
    · have hranges := wellFormed_readRanges hs (extractLastAdmission (Text.trim t)).2
      rw [Segment.readTimed]
      split
      · exact ⟨hnone, hranges.scope⟩
      · exact ⟨hranges.close _, hranges.scope⟩
    · rw [Segment.readPlain]
      split
      · next q hq => exact ⟨hnone, Scope.validMonths_hold hs (validMonths_only? hq)⟩
      · split
        · exact ⟨hnone, hs⟩
        · exact ⟨hnone, hs⟩

theorem windows_readSegments_cons (s : Scope) (segment : Text) (segments : List Text) :
    (OpeningTimes.readSegments s (segment :: segments)).1 =
      (Segment.read s segment).1.said ++
        (OpeningTimes.readSegments (Segment.read s segment).2 segments).1 := by
  rw [OpeningTimes.readSegments]
  cases h : Segment.read s segment with
  | mk said scope => cases said <;> rfl

/-- The segments of a statement, each under the scope that the ones before it have left. -/
theorem wellFormed_readSegments (hs : ValidMonths s.months) (segments : List Text) :
    ∀ w ∈ (OpeningTimes.readSegments s segments).1, w.WellFormed := by
  induction segments generalizing s with
  | nil => exact fun w hw => absurd hw List.not_mem_nil
  | cons segment segments ih =>
    obtain ⟨hsaid, hscope⟩ := wellFormed_read hs segment
    intro w hw
    rw [windows_readSegments_cons] at hw
    rcases List.mem_append.1 hw with hw | hw
    · exact hsaid w hw
    · exact ih hscope w hw

theorem wellFormed_readStatements (t : Text) :
    ∀ w ∈ (OpeningTimes.readStatements t).1, w.WellFormed := by
  intro w hw
  obtain ⟨read, hread, hw⟩ := List.mem_flatMap.1 hw
  obtain ⟨statement, -, rfl⟩ := List.mem_map.1 hread
  exact wellFormed_readSegments (fun r hr => absurd hr List.not_mem_nil) _ w hw

/-! ## A date of every year -/

namespace TimeWindow.WellFormed

theorem exists_inSeason (hw : w.WellFormed) :
    ∃ m, (1 ≤ m ∧ m ≤ 12) ∧ w.inSeason m = true := by
  cases hm : w.months with
  | nil => exact ⟨1, by omega, by rw [inSeason, hm]; rfl⟩
  | cons r rs =>
    have hr : r ∈ w.months := by
      rw [hm]
      exact List.mem_cons_self
    refine ⟨r.first, (hw.months r hr).1, ?_⟩
    rw [inSeason, hm, List.any_cons, MonthRange.includes_first, Bool.true_or, Bool.or_true]

/-- A window that is in force on no weekday is one of holidays. -/
theorem includesHolidays_of_onWeekday (hw : w.WellFormed)
    (hnone : ∀ d, w.onWeekday d = false) : w.includesHolidays = true := by
  cases hdays : w.days with
  | none =>
    have hmon := hnone .mon
    rw [onWeekday, hdays] at hmon
    exact absurd hmon (by decide)
  | some set =>
    refine hw.days set hdays (WeekdaySet.isEmpty_iff.2 fun d => ?_)
    have hd := hnone d
    rw [onWeekday, hdays] at hd
    exact hd

/-- **A well-formed window applies on a date of every year**, for some holidays. -/
theorem exists_appliesOn (hw : w.WellFormed) {y : Int}
    (hy : firstYear ≤ y ∧ y ≤ lastYear) :
    ∃ (date : Date) (f : FixedHolidays), date.year = y ∧
      (w.appliesOn date).under f.calendar = true := by
  obtain ⟨m, hm, hseason⟩ := hw.exists_inSeason
  have hweek : 1 ≤ 1 ∧ 1 + 6 ≤ monthLength y m := by
    have := Date.twentyEight_le_monthLength y m
    omega
  by_cases hany : ∃ d, w.onWeekday d = true
  · -- The weekday comes up in the first week of the month, and no date is a holiday.
    obtain ⟨d, hd⟩ := hany
    obtain ⟨date, hyear, rfl, -, rfl⟩ := Date.exists_date_in_week hy hm hweek d
    refine ⟨date, {}, hyear, ?_⟩
    rw [under_appliesOn, hseason, hd]
    rfl
  · -- The window is one of holidays, and the first Monday of the month is made one.
    have hnone (d : Weekday) : w.onWeekday d = false := by
      cases hd : w.onWeekday d with
      | false => rfl
      | true => exact absurd ⟨d, hd⟩ hany
    obtain ⟨date, hyear, rfl, -, -⟩ := Date.exists_date_in_week hy hm hweek .mon
    have hholiday : (FixedHolidays.mk [date]).calendar date = true := by
      simp [FixedHolidays.calendar]
    refine ⟨date, ⟨[date]⟩, hyear, ?_⟩
    rw [under_appliesOn, hseason, hholiday, hw.includesHolidays_of_onWeekday hnone]
    rfl

/-- At its start on a date to which it applies, a well-formed window is open, or in doubt where it
has no end. -/
theorem under_contains_start (hw : w.WellFormed) {holidays : HolidayCalendar} {date : Date}
    (happlies : (w.appliesOn date).under holidays = true) :
    (w.contains ⟨date, w.start, 0⟩).under holidays =
      if w.finish.isSome then .yes else .unknown := by
  cases hfinish : w.finish with
  | none =>
    have hstarted : w.Started ⟨date, w.start, 0⟩ := (started_iff w _).2 (Nat.le_refl _)
    exact (under_contains_eq_unknown_iff holidays hfinish _).2 ⟨happlies, hstarted⟩
  | some finish =>
    have hruns : w.Runs finish date ⟨date, w.start, 0⟩ := by
      refine (runs_today w finish ⟨date, w.start, 0⟩).2 ⟨Nat.le_refl _, ?_⟩
      by_cases hle : finish.minuteOfDay ≤ w.start.minuteOfDay
      · exact .inl (hw.earlyEnd finish hfinish hle)
      · exact .inr (Nat.lt_of_not_le hle)
    exact (under_contains_eq_yes_iff holidays hfinish _).2 ⟨date, happlies, hruns⟩

end TimeWindow.WellFormed

namespace OpeningTimes

theorem wellFormed_ofText (raw : Option Text) : ∀ w ∈ (ofText raw).windows, w.WellFormed := by
  have hnone : ∀ w ∈ ([] : List TimeWindow), w.WellFormed :=
    fun w hw => absurd hw List.not_mem_nil
  cases raw with
  | none => exact hnone
  | some t =>
    rw [ofText, readNormal]
    split
    · exact hnone
    · split
      · exact hnone
      · dsimp only
        split
        · exact hnone
        · split
          · exact hnone
          · exact wellFormed_readStatements _

/-- **Every window of every text is well formed and live.** In each year of the calendar there are a
date and a list of holidays under which the window is not surely closed at its start. -/
theorem wellFormed_of_mem_windows (raw : Option Text) (w : TimeWindow)
    (hw : w ∈ (ofText raw).windows) :
    w.WellFormed ∧ ∀ y : Int, firstYear ≤ y → y ≤ lastYear →
      ∃ (date : Date) (f : FixedHolidays), date.year = y ∧
        (w.contains ⟨date, w.start, 0⟩).under f.calendar ≠ .no := by
  have hformed := wellFormed_ofText raw w hw
  refine ⟨hformed, ?_⟩
  intro y hfirst hlast
  obtain ⟨date, f, hyear, happlies⟩ := hformed.exists_appliesOn ⟨hfirst, hlast⟩
  refine ⟨date, f, hyear, ?_⟩
  rw [hformed.under_contains_start happlies]
  split
  · decide
  · decide

/-- The window of a text about the nights of the holidays of August. -/
def holidayNights : TimeWindow where
  start := ⟨1320, by decide⟩
  finish := some ⟨300, by decide⟩
  crossesMidnight := true
  days := some .empty
  months := [⟨8, 8⟩]

theorem wellFormed_holidayNights :
    holidayNights ∈ (ofText (some "8月 祝 22:00~翌5:00".toList)).windows ∧
    holidayNights.WellFormed ∧
    ∃ (date : Date) (f : FixedHolidays), date.year = 2026 ∧
      (holidayNights.contains ⟨date, holidayNights.start, 0⟩).under f.calendar ≠ .no := by
  have hmem : holidayNights ∈ (ofText (some "8月 祝 22:00~翌5:00".toList)).windows := by
    decide +kernel
  obtain ⟨hformed, hlive⟩ := wellFormed_of_mem_windows _ holidayNights hmem
  exact ⟨hmem, hformed, hlive 2026 (by decide) (by decide)⟩

end OpeningTimes

end OpeningHours
