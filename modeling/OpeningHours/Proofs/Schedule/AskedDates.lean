import OpeningHours.Proofs.Holiday.AsksOnly
import OpeningHours.Schedule

/-!
# The dates that an answer hangs on

Whether a facility is open, closed or available at a moment hangs on the holidays of two dates at
most: the date of the moment, and the date before, from which a window may run on or a closure may
be carried over. So it is for every schedule, whatever its windows, rules and flags.

* `TimeWindow.asksOnly_contains`, `ClosureRule.asksOnly_closes`: one window and one rule;
* `OpeningTimes.asksOnly_openState`, `ClosedDays.asksOnly_isClosedOn`: all of them;
* **`Schedule.hangs_on_two_dates`**: calendars that agree on the two dates give the same answers, and
  a cache loads no year but theirs.
-/

namespace OpeningHours

open HolidayQuery

variable {dates : List Date} {date : Date}

/-- The date and the date before, if there is one. -/
def Date.withDayBefore (d : Date) : List Date :=
  d :: d.prev?.toList

theorem Date.self_mem_withDayBefore (d : Date) : d ∈ d.withDayBefore :=
  List.mem_cons_self

theorem Date.mem_withDayBefore_of_prev? {d e : Date} (h : d.prev? = some e) :
    e ∈ d.withDayBefore := by
  rw [withDayBefore, h]
  exact List.mem_cons_of_mem d (List.mem_singleton_self e)

/-! ## Windows -/

namespace TimeWindow

theorem asksOnly_appliesOn (w : TimeWindow) (h : date ∈ dates) :
    (w.appliesOn date).AsksOnly dates := by
  rw [appliesOn]
  refine .onlyIf _ ((asksOnly_isHoliday h).bind ?_)
  intro holiday
  exact asksOnly_pure _

theorem asksOnly_appliedBefore (w : TimeWindow) (date : Date) :
    (w.appliedBefore date).AsksOnly date.withDayBefore := by
  rw [appliedBefore]
  cases hprev : date.prev? with
  | none => exact asksOnly_pure false
  | some yesterday => exact w.asksOnly_appliesOn (Date.mem_withDayBefore_of_prev? hprev)

/-- A window asks for the date of the moment, and for the date before if it crosses midnight. -/
theorem asksOnly_contains (w : TimeWindow) (m : Moment) :
    (w.contains m).AsksOnly m.date.withDayBefore := by
  have htoday := w.asksOnly_appliesOn m.date.self_mem_withDayBefore
  have hbefore := w.asksOnly_appliedBefore m.date
  rw [contains]
  cases w.finish with
  | none =>
    refine (htoday.onlyIf _).bind ?_
    intro started
    exact asksOnly_pure _
  | some finish =>
    dsimp only
    by_cases hcross : w.crossesMidnight = true
    · rw [if_pos hcross]
      refine .map _ (asksOnly_any (List.forall_mem_cons.2 ⟨htoday.onlyIf _, ?_⟩))
      exact List.forall_mem_singleton.2 (hbefore.onlyIf _)
    · rw [if_neg hcross]
      exact .map _ (htoday.onlyIf _)

end TimeWindow

theorem OpeningTimes.asksOnly_openState (t : OpeningTimes) (m : Moment) :
    (t.openState m).AsksOnly m.date.withDayBefore := by
  rw [openState]
  by_cases hclosed : t.isClosed = true
  · rw [if_pos hclosed]
    exact asksOnly_pure Tristate.no
  rw [if_neg hclosed]
  by_cases hclock : t.isAroundTheClock = true
  · rw [if_pos hclock]
    exact asksOnly_pure Tristate.yes
  rw [if_neg hclock]
  by_cases hwindows : t.windows.isEmpty = true
  · rw [if_pos hwindows]
    exact asksOnly_pure Tristate.unknown
  · rw [if_neg hwindows]
    exact asksOnly_strongest (List.forall_mem_map.2 fun w _ => w.asksOnly_contains m)

/-! ## Rules -/

namespace ClosureRule

theorem asksOnly_carried (trigger : Date → Bool) (date : Date) :
    (carried trigger date).AsksOnly date.withDayBefore := by
  rw [carried]
  cases hprev : date.prev? with
  | none => exact asksOnly_pure false
  | some yesterday =>
    exact (asksOnly_isHoliday (Date.mem_withDayBefore_of_prev? hprev)).onlyIf _

theorem asksOnly_shifted (trigger : Date → Bool) (shifts : Bool) (date : Date) :
    (shifted trigger shifts date).AsksOnly date.withDayBefore := by
  rw [shifted]
  by_cases htrigger : trigger date = true
  · rw [if_pos htrigger]
    exact .map _ ((asksOnly_isHoliday date.self_mem_withDayBefore).onlyIf _)
  · rw [if_neg htrigger]
    exact (asksOnly_carried trigger date).onlyIf _

/-- A rule asks for the date, and for the date before if closing may have been carried over. -/
theorem asksOnly_closes (r : ClosureRule) (date : Date) :
    (r.closes date).AsksOnly date.withDayBefore := by
  have hholiday := asksOnly_isHoliday date.self_mem_withDayBefore
  cases r with
  | weekly weekdays onHolidaysToo shifts exceptHolidays =>
    refine (hholiday.onlyIf _).bind ?_
    intro onHoliday
    cases onHoliday with
    | true => exact asksOnly_pure true
    | false =>
      refine (hholiday.onlyIf _).bind ?_
      intro excepted
      cases excepted with
      | true => exact asksOnly_pure false
      | false => exact asksOnly_shifted _ shifts date
  | monthly days shifts => exact asksOnly_shifted _ shifts date
  | ordinal ordinals weekday shifts => exact asksOnly_shifted _ shifts date
  | dated days spans => exact asksOnly_pure _

end ClosureRule

theorem ClosedDays.asksOnly_isClosedOn (c : ClosedDays) (date : Date) :
    (c.isClosedOn date).AsksOnly date.withDayBefore := by
  rw [isClosedOn]
  refine (asksOnly_any (List.forall_mem_map.2 fun r _ => r.asksOnly_closes date)).bind ?_
  intro closes
  cases closes with
  | true => exact asksOnly_pure Tristate.yes
  | false => exact asksOnly_pure c.otherwise

/-! ## Schedules -/

namespace Schedule

theorem asksOnly_isAvailable (s : Schedule) (m : Moment) (assumeClosed : Bool) :
    (s.isAvailable m assumeClosed).AsksOnly m.date.withDayBefore := by
  have hopen : (s.isOpen m assumeClosed).AsksOnly m.date.withDayBefore :=
    .map _ (s.times.asksOnly_openState m)
  have hclosed : (s.isClosedOn m.date).AsksOnly m.date.withDayBefore :=
    s.closedDays.asksOnly_isClosedOn m.date
  rw [isAvailable]
  refine hopen.bind ?_
  intro isOpen
  cases isOpen with
  | true => exact hclosed.bind fun closed => asksOnly_pure _
  | false => exact asksOnly_pure false

/-- **What holds at a moment hangs on the holidays of its date and of the date before.** Calendars
that agree on the two dates agree on whether the opening times cover the moment, whether its date is
a closed day and whether the facility is available, whatever is assumed of what is unknown. A cache
that is asked any of this loads no year but those of the two dates. -/
theorem hangs_on_two_dates (s : Schedule) (m : Moment) :
    (∀ g h : HolidayCalendar, (∀ d ∈ m.date.withDayBefore, g d = h d) →
      (s.times.openState m).under g = (s.times.openState m).under h ∧
      (s.isClosedOn m.date).under g = (s.isClosedOn m.date).under h ∧
      ∀ assumeClosed, (s.isAvailable m assumeClosed).under g =
        (s.isAvailable m assumeClosed).under h) ∧
    ∀ (source : HolidaySource) (folder : Option DiskPath) (c : HolidayCache),
      let years := m.date.withDayBefore.map Date.year
      HolidayCache.LoadsOnly folder years c (c.run source folder (s.times.openState m)).2 ∧
      HolidayCache.LoadsOnly folder years c (c.run source folder (s.isClosedOn m.date)).2 ∧
      ∀ assumeClosed, HolidayCache.LoadsOnly folder years c
        (c.run source folder (s.isAvailable m assumeClosed)).2 := by
  have hopen := s.times.asksOnly_openState m
  have hclosed : (s.isClosedOn m.date).AsksOnly m.date.withDayBefore :=
    s.closedDays.asksOnly_isClosedOn m.date
  have havailable := s.asksOnly_isAvailable m
  constructor
  · intro g h hgh
    refine ⟨hopen.under_congr hgh, hclosed.under_congr hgh, ?_⟩
    intro assumeClosed
    exact (havailable assumeClosed).under_congr hgh
  · intro source folder c years
    refine ⟨HolidayCache.loadsOnly_run hopen source folder c,
      HolidayCache.loadsOnly_run hclosed source folder c, ?_⟩
    intro assumeClosed
    exact HolidayCache.loadsOnly_run (havailable assumeClosed) source folder c

/-- An hour into the new year, where a night of Thursdays runs on and the 31st may be carried over.
The calendars disagree about the date after. -/
theorem hangs_on_two_dates_newYear :
    let s : Schedule :=
      { times := { windows := [{
          start := { minuteOfDay := 1320 }
          finish := some { minuteOfDay := 120 }
          crossesMidnight := true
          days := some (.single .thu) }] }
        closedDays := { rules := [.monthly [31] true] } }
    let m : Moment :=
      { date := { year := 2027, month := 1, day := 1 }, time := { minuteOfDay := 60 } }
    let g : HolidayCalendar := fun d => d.month == 1 && d.day == 1
    let h : HolidayCalendar := fun d => d.month == 1
    (∀ d ∈ m.date.withDayBefore, g d = h d) ∧
      (s.isAvailable m true).under g = (s.isAvailable m true).under h := by
  intro s m g h
  have hgh : ∀ d ∈ m.date.withDayBefore, g d = h d := by decide
  exact ⟨hgh, ((s.hangs_on_two_dates m).1 g h hgh).2.2 true⟩

end Schedule

end OpeningHours
