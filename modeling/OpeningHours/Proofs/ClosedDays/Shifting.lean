import Mathlib.Data.List.Perm.Subperm
import OpeningHours.ClosedDays.Rule
import OpeningHours.Proofs.Calendar.Intervals

/-!
# Closing that moves off the holidays

A rule that shifts has dates of its own, its triggers. A trigger that is no holiday is closed; a
trigger that is one passes its closing on to the date after. So each trigger has one date where its
closing goes, `shiftTarget`, or none where the calendar ends, and no date is closed that is not the
target of a trigger. The only targets that stay open are those that are triggers and holidays
themselves: they have passed their own closing on, and closing is passed on once.

* `closes_iff_shiftTarget`: the closed dates in terms of the targets;
* `shiftTarget_injOn`: where triggers are never next to each other, no two have one target;
* `countP_closes_le`: an interval has no more closed dates than triggers, the date before included;
* **`closes_shiftTargets`**: closing is moved by shifting, and neither created nor doubled.
-/

namespace OpeningHours.ClosureRule

variable {r : ClosureRule} {holidays : HolidayCalendar} {t d : Date}

/-- Whether the rule closes its dates and shifts them, and has no word on other holidays. -/
def onlyShifts : ClosureRule → Bool
  | .weekly _ onHolidaysToo shifts _ => shifts && !onHolidaysToo
  | .monthly _ shifts => shifts
  | .ordinal _ _ shifts => shifts
  | .dated _ _ => false

/-- The date where the closing of a trigger goes. -/
def shiftTarget (holidays : HolidayCalendar) (t : Date) : Option Date :=
  if holidays t then t.next? else some t

/-- Where triggers are never next to each other. -/
def Apart (trigger : Date → Bool) : Prop :=
  ∀ t u : Date, t.next? = some u → ¬ (trigger t = true ∧ trigger u = true)

/-! ## Targets -/

theorem shiftTarget_eq_some_iff : shiftTarget holidays t = some d ↔
    (holidays t = false ∧ t = d) ∨ (holidays t = true ∧ d.prev? = some t) := by
  rw [shiftTarget]
  cases holidays t with
  | false => simp
  | true => simp [Date.next?_eq_some_iff_prev?]

/-- A trigger whose target lies in an interval lies in it too, or one date before. -/
theorem mem_between_of_shiftTarget {a b : Date} (ht : shiftTarget holidays t = some d)
    (hd : d ∈ Date.between a b) : t ∈ Date.between (a.prev?.getD a) b := by
  obtain ⟨hstart, hfinish⟩ := Date.mem_between.1 hd
  have ht' : d.dayNumber ≤ t.dayNumber + 1 ∧ t.dayNumber ≤ d.dayNumber := by
    rcases shiftTarget_eq_some_iff.1 ht with ⟨-, rfl⟩ | ⟨-, hprev⟩
    · omega
    · have hbefore := Date.dayNumber_of_prev? hprev
      omega
  rw [Date.mem_between]
  cases hprev : a.prev? with
  | none =>
    have hfirst := Date.dayNumber_le_of_prev?_eq_none hprev t
    exact ⟨hfirst, by omega⟩
  | some e =>
    have hbefore := Date.dayNumber_of_prev? hprev
    exact ⟨by rw [Option.getD_some]; omega, by omega⟩

/-- **Where triggers are never next to each other, no two have one target.** -/
theorem shiftTarget_injOn {trigger : Date → Bool} (hapart : Apart trigger) {u : Date}
    (ht : trigger t = true) (hu : trigger u = true)
    (h : shiftTarget holidays t = shiftTarget holidays u) : t = u := by
  rw [shiftTarget, shiftTarget] at h
  cases hht : holidays t with
  | false =>
    cases hhu : holidays u with
    | false => simpa [hht, hhu] using h
    | true =>
      have hnext : u.next? = some t := by simpa [hht, hhu] using h.symm
      exact absurd ⟨hu, ht⟩ (hapart u t hnext)
  | true =>
    cases hhu : holidays u with
    | false =>
      have hnext : t.next? = some u := by simpa [hht, hhu] using h
      exact absurd ⟨ht, hu⟩ (hapart t u hnext)
    | true =>
      have hnext : t.next? = u.next? := by simpa [hht, hhu] using h
      exact Date.next?_injective hnext

/-- Dates with one weekday are never next to each other. -/
theorem apart_of_weekday {trigger : Date → Bool} {w : Weekday}
    (h : ∀ t, trigger t = true → t.weekday = w) : Apart trigger := by
  intro t u hnext hboth
  have ht := (t.weekday_eq_iff w).1 (h t hboth.1)
  have hu := (u.weekday_eq_iff w).1 (h u hboth.2)
  have hafter := Date.dayNumber_of_next? hnext
  omega

/-! ## Closed dates -/

/-- The three kinds of rules that may shift close alike. -/
theorem under_closes_of_onlyShifts (hr : r.onlyShifts = true) (holidays : HolidayCalendar)
    (d : Date) : (r.closes d).under holidays =
      if r.triggers d then !holidays d
      else d.prev?.any fun t => r.triggers t && holidays t := by
  cases r with
  | weekly weekdays onHolidaysToo shifts exceptHolidays =>
    obtain ⟨rfl, honly⟩ := Bool.and_eq_true_iff.1 hr
    obtain rfl : onHolidaysToo = false := by simpa using honly
    rw [closes]
    by_cases htrigger : (weekly weekdays false true exceptHolidays).triggers d = true
    · cases hholiday : holidays d with
      | false => simp [htrigger, hholiday, under_shifted]
      | true => cases exceptHolidays <;> simp [htrigger, hholiday, under_shifted]
    · simp [htrigger, under_shifted]
  | monthly days shifts =>
    obtain rfl : shifts = true := hr
    rw [closes, under_shifted]
    simp
  | ordinal ordinals weekday shifts =>
    obtain rfl : shifts = true := hr
    rw [closes, under_shifted]
    simp
  | dated days spans => exact absurd hr Bool.false_ne_true

/-- **A date is closed if it is the target of a trigger**, unless it passes closing on itself. -/
theorem closes_iff_shiftTarget (hr : r.onlyShifts = true) :
    (r.closes d).under holidays = true ↔
      (∃ t, r.triggers t = true ∧ shiftTarget holidays t = some d) ∧
        ¬ (r.triggers d = true ∧ holidays d = true) := by
  rw [under_closes_of_onlyShifts hr]
  simp only [shiftTarget_eq_some_iff]
  by_cases htrigger : r.triggers d = true
  · rw [if_pos htrigger]
    constructor
    · intro hopen
      have hd : holidays d = false := by simpa using hopen
      exact ⟨⟨d, htrigger, .inl ⟨hd, rfl⟩⟩, by simp [hd]⟩
    · intro h
      simpa [htrigger] using h.2
  · rw [if_neg htrigger, Option.any_eq_true]
    constructor
    · intro h
      obtain ⟨t, hprev, hcarried⟩ := h
      obtain ⟨ht, hholiday⟩ := Bool.and_eq_true_iff.1 hcarried
      exact ⟨⟨t, ht, .inr ⟨hholiday, hprev⟩⟩, fun h => htrigger h.1⟩
    · intro h
      obtain ⟨⟨t, ht, htarget⟩, -⟩ := h
      rcases htarget with ⟨-, rfl⟩ | ⟨hholiday, hprev⟩
      · exact absurd ht htrigger
      · exact ⟨t, hprev, by rw [ht, hholiday]; rfl⟩

/-- **An interval has no more closed dates than triggers**, if the date before it is counted too: each
closed date is the target of a trigger, and a trigger has one target. -/
theorem countP_closes_le (hr : r.onlyShifts = true) (holidays : HolidayCalendar) (a b : Date) :
    (Date.between a b).countP (fun d => (r.closes d).under holidays) ≤
      (Date.between (a.prev?.getD a) b).countP r.triggers := by
  have hsubset : (Date.between a b).filter (fun d => (r.closes d).under holidays) ⊆
      ((Date.between (a.prev?.getD a) b).filter r.triggers).filterMap (shiftTarget holidays) := by
    intro d hd
    obtain ⟨hbetween, hclosed⟩ := List.mem_filter.1 hd
    obtain ⟨⟨t, ht, htarget⟩, -⟩ := (closes_iff_shiftTarget hr).1 hclosed
    have hmem := mem_between_of_shiftTarget htarget hbetween
    exact List.mem_filterMap.2 ⟨t, List.mem_filter.2 ⟨hmem, ht⟩, htarget⟩
  have hnodup := (Date.nodup_between a b).filter fun d => (r.closes d).under holidays
  rw [List.countP_eq_length_filter, List.countP_eq_length_filter]
  exact (List.subperm_of_subset hnodup hsubset).length_le.trans
    (List.length_filterMap_le (shiftTarget holidays) _)

/-- **Shifting moves closing, and neither creates nor doubles it.** A rule that shifts, and has no
word on other holidays, closes the targets of its triggers and no other dates, except for targets
that are triggers and holidays themselves. Where its triggers are never next to each other it closes
all the targets, and each is the target of one trigger. An interval never has more closed dates than
triggers, if the date before the interval is counted too. -/
theorem closes_shiftTargets (r : ClosureRule) (hr : r.onlyShifts = true)
    (holidays : HolidayCalendar) :
    let closed (d : Date) : Bool := (r.closes d).under holidays
    let target (d : Date) : Prop := ∃ t, r.triggers t = true ∧ shiftTarget holidays t = some d
    (∀ d, closed d = true ↔ target d ∧ ¬ (r.triggers d = true ∧ holidays d = true)) ∧
    (Apart r.triggers →
      (∀ t u, r.triggers t = true → r.triggers u = true →
        shiftTarget holidays t = shiftTarget holidays u → t = u) ∧
      ∀ d, closed d = true ↔ target d) ∧
    ∀ a b, (Date.between a b).countP closed ≤
      (Date.between (a.prev?.getD a) b).countP r.triggers := by
  intro closed target
  refine ⟨fun d => closes_iff_shiftTarget hr, ?_, countP_closes_le hr holidays⟩
  intro hapart
  refine ⟨fun t u ht hu => shiftTarget_injOn hapart ht hu, ?_⟩
  intro d
  refine (closes_iff_shiftTarget hr).trans (and_iff_left_of_imp ?_)
  intro htarget hd
  obtain ⟨t, ht, hto⟩ := htarget
  -- A target that is a holiday is no trigger's own date, so it is next to its trigger.
  rcases shiftTarget_eq_some_iff.1 hto with ⟨hopen, rfl⟩ | ⟨-, hprev⟩
  · exact absurd hd.2 (by simp [hopen])
  · exact hapart t d (Date.next?_eq_some_iff_prev?.2 hprev) ⟨ht, hd.1⟩

/-- Mondays in a May that has holidays from Sunday the 3rd to Wednesday the 6th: the 4th passes its
closing on to the 5th, although that is a holiday too. -/
theorem closes_shiftTargets_holidayRun :
    let r : ClosureRule := .weekly (.single .mon) false true true
    let holidays : HolidayCalendar := fun d => d.month == 5 && 3 ≤ d.day && d.day ≤ 6
    let a : Date := { year := 2026, month := 5, day := 1 }
    r.onlyShifts = true ∧ Apart r.triggers ∧
      (((r.closes { year := 2026, month := 5, day := 5 }).under holidays = true ↔
        ∃ t, r.triggers t = true ∧
          shiftTarget holidays t = some { year := 2026, month := 5, day := 5 }) ∧
      (Date.between a a.lastOfMonth).countP (fun d => (r.closes d).under holidays) ≤
        (Date.between (a.prev?.getD a) a.lastOfMonth).countP r.triggers) := by
  intro r holidays a
  have hr : r.onlyShifts = true := rfl
  have hapart : Apart r.triggers := apart_of_weekday fun t ht => by
    simpa [r, triggers] using ht
  have hshift := closes_shiftTargets r hr holidays
  exact ⟨hr, hapart, (hshift.2.1 hapart).2 _, hshift.2.2 a a.lastOfMonth⟩

end OpeningHours.ClosureRule
