import OpeningHours.Holiday.Names
import OpeningHours.Proofs.Calendar.WeekdayDates
import OpeningHours.Proofs.ClosedDays.YearEnd

/-!
# Well-formed rules in their fixed order

The numbers of a rule come from loose patterns: ordinals and days in digits and kanji, months and
days of dates that may not exist. The passes keep the ones in range, drop the others, and make no
rule of what is then empty. So each rule that is read is well formed, and each well-formed rule
closes a date.

* `ClosureRule.WellFormed`: what holds of the numbers of a rule, kind by kind;
* `ClosureRule.InOrder`: the kinds of rules in their fixed order;
* `wellFormed_of_mem_extractOrdinals`, `wellFormed_of_mem_extractMonthly`,
  `wellFormed_of_mem_weeklyRule?`, `wellFormed_of_mem_extractDates`: what each pass reads;
* `ClosureRule.WellFormed.exists_triggers`, `.exists_closes`: a well-formed rule closes a date;
* **`ClosedDays.wellFormed_rules`**: the rules of every text are well formed, close a date each, and
  stand in order.
-/

namespace OpeningHours

open Pattern Wording

variable {t : Text} {r : ClosureRule}

/-! ## What a well-formed rule is -/

/-- The numbers are some of those from 1 to `most`, in strictly ascending order. -/
structure AscendingUpTo (most : Nat) (ns : List Nat) : Prop where
  ne_nil : ns ≠ []
  pairwise : ns.Pairwise (· < ·)
  bounded : ∀ n ∈ ns, 1 ≤ n ∧ n ≤ most

/-- Some year has the day. -/
def MonthDay.IsValid (d : MonthDay) : Prop :=
  ofNumbers? d.month d.day = some d

namespace ClosureRule

/-- The parts of the rule exist and name some date. -/
def WellFormed : ClosureRule → Prop
  | .weekly weekdays onHolidaysToo _ _ => weekdays.isEmpty = false ∨ onHolidaysToo = true
  | .monthly days _ => AscendingUpTo 31 days
  | .ordinal ordinals _ _ => AscendingUpTo 5 ordinals
  | .dated days spans => (days ≠ [] ∨ spans ≠ []) ∧ (∀ d ∈ days, d.IsValid) ∧
      ∀ s ∈ spans, s.start.IsValid ∧ s.finish.IsValid

/-- The kinds of rules. -/
inductive Kind where
  | weekly
  | ordinal
  | monthly
  | dated
  deriving DecidableEq, Repr

/-- The kind of the rule. -/
def kind : ClosureRule → Kind
  | .weekly _ _ _ _ => .weekly
  | .monthly _ _ => .monthly
  | .ordinal _ _ _ => .ordinal
  | .dated _ _ => .dated

/-- The rules stand in their fixed order: at most one weekly rule, the rules for ordinal weekdays, at
most one rule for days of every month, and at most one rule for days of the year for each of the
clauses. -/
def InOrder (clauses : Nat) (rules : List ClosureRule) : Prop :=
  ∃ (weekly : Option ClosureRule) (ordinals : List ClosureRule) (monthly : Option ClosureRule)
    (dated : List (Option ClosureRule)),
    rules = weekly.toList ++ ordinals ++ monthly.toList ++ dated.flatMap Option.toList ∧
    dated.length = clauses ∧
    (∀ r ∈ weekly, r.kind = .weekly) ∧ (∀ r ∈ ordinals, r.kind = .ordinal) ∧
    (∀ r ∈ monthly, r.kind = .monthly) ∧ ∀ r ∈ dated.flatMap Option.toList, r.kind = .dated

end ClosureRule

/-! ## What each pass reads -/

theorem numeralUpTo?_eq_some {most n : Nat} (h : numeralUpTo? most t = some n) :
    1 ≤ n ∧ n ≤ most := by
  obtain ⟨k, -, hk⟩ := Option.bind_eq_some_iff.1 h
  split at hk
  · next hrange =>
    obtain rfl := Option.some.inj hk
    exact hrange
  · exact absurd hk (by simp)

theorem ascendingUpTo_ascending {most : Nat} {ns : List Nat} (hne : ascending ns ≠ [])
    (hbound : ∀ n ∈ ns, 1 ≤ n ∧ n ≤ most) : AscendingUpTo most (ascending ns) where
  ne_nil := hne
  pairwise := pairwise_ascending ns
  bounded := fun n hn => hbound n (mem_ascending.1 hn)

theorem bounded_dayNumbers (t : Text) : ∀ n ∈ dayNumbers t, 1 ≤ n ∧ n ≤ 31 := by
  intro n hn
  obtain ⟨h, -, hread⟩ := List.mem_filterMap.1 hn
  exact numeralUpTo?_eq_some hread

theorem wellFormed_of_mem_extractOrdinals {shifts : Bool} (hr : r ∈ (extractOrdinals shifts t).1) :
    r.WellFormed ∧ r.kind = .ordinal := by
  obtain ⟨b, h, -, hrule⟩ := exists_hit_of_mem_filterMap_extract hr
  rw [Hit.ordinalRule?] at hrule
  split at hrule
  · exact absurd hrule (by simp)
  · next hne =>
    obtain ⟨weekday, -, rfl⟩ := Option.map_eq_some_iff.1 hrule
    refine ⟨ascendingUpTo_ascending (by simpa [ordinalNumbers] using hne) ?_, rfl⟩
    intro n hn
    obtain ⟨c, -, hc⟩ := List.mem_filterMap.1 hn
    exact numeralUpTo?_eq_some hc

/-- The lists of days in the hits of a pattern hold days of a month. -/
theorem bounded_of_mem_extract {p : Pattern} {n : Nat}
    (hn : n ∈ (p.extract (fun _ h => some (dayNumbers (h.part 1))) t).1.flatten) :
    1 ≤ n ∧ n ≤ 31 := by
  obtain ⟨days, hdays, hn⟩ := List.mem_flatten.1 hn
  obtain ⟨b, h, -, hread⟩ := exists_hit_of_mem_extract hdays
  obtain rfl := Option.some.inj hread
  exact bounded_dayNumbers _ n hn

theorem wellFormed_of_mem_extractMonthly {shifts : Bool} (hr : r ∈ (extractMonthly shifts t).1) :
    r.WellFormed ∧ r.kind = .monthly := by
  simp only [extractMonthly, Option.mem_def] at hr
  split at hr
  · exact absurd hr (by simp)
  · next hne =>
    obtain rfl := Option.some.inj hr
    refine ⟨ascendingUpTo_ascending (by simpa using hne) ?_, rfl⟩
    intro n hn
    rcases List.mem_append.1 hn with hn | hn
    · exact bounded_of_mem_extract hn
    · exact bounded_of_mem_extract hn

theorem wellFormed_of_mem_weeklyRule? {s : DayScope} {shifts exceptHolidays : Bool}
    (hr : r ∈ weeklyRule? s shifts exceptHolidays) : r.WellFormed ∧ r.kind = .weekly := by
  simp only [weeklyRule?, Option.mem_def] at hr
  split at hr
  · next hdays =>
    obtain rfl := Option.some.inj hr
    refine ⟨?_, rfl⟩
    rw [Bool.or_eq_true, Bool.not_eq_true'] at hdays
    exact hdays
  · exact absurd hr (by simp)

theorem isValid_of_ofNumbers? {month day : Nat} {d : MonthDay}
    (h : MonthDay.ofNumbers? month day = some d) : d.IsValid := by
  obtain rfl : ⟨month, day⟩ = d := by
    rw [MonthDay.ofNumbers?] at h
    split at h
    · exact Option.some.inj h
    · exact absurd h (by simp)
  exact h

theorem isValid_namedDays (t : Text) : ∀ d ∈ namedDays t, d.IsValid := by
  intro d hd
  obtain ⟨b, h, -, hdate⟩ := exists_hit_of_mem_filterMap_extract hd
  exact isValid_of_ofNumbers? hdate

theorem isValid_namedSpans (t : Text) :
    ∀ s ∈ namedSpans t, s.start.IsValid ∧ s.finish.IsValid := by
  intro s hs
  obtain ⟨b, h, -, hspan⟩ := exists_hit_of_mem_filterMap_extract hs
  obtain ⟨start, hstart, hspan⟩ := Option.bind_eq_some_iff.1 hspan
  obtain ⟨finish, hfinish, hspan⟩ := Option.bind_eq_some_iff.1 hspan
  obtain rfl := Option.some.inj hspan
  exact ⟨isValid_of_ofNumbers? hstart, isValid_of_ofNumbers? hfinish⟩

theorem wellFormed_of_mem_datedRule? {days : List MonthDay} {spans : List DateSpan}
    (hdays : ∀ d ∈ days, d.IsValid) (hspans : ∀ s ∈ spans, s.start.IsValid ∧ s.finish.IsValid)
    (hr : r ∈ datedRule? days spans) : r.WellFormed ∧ r.kind = .dated := by
  rw [datedRule?, Option.mem_def] at hr
  split at hr
  · exact absurd hr (by simp)
  · next hne =>
    obtain rfl := Option.some.inj hr
    refine ⟨⟨?_, hdays, hspans⟩, rfl⟩
    rw [Bool.and_eq_true, List.isEmpty_iff, List.isEmpty_iff, not_and_or] at hne
    exact hne

theorem wellFormed_of_mem_extractDates (hr : r ∈ (extractDates t).1) :
    r.WellFormed ∧ r.kind = .dated := by
  refine wellFormed_of_mem_datedRule? (isValid_namedDays t) ?_ hr
  intro s hs
  split at hs
  · obtain rfl := List.mem_singleton.1 hs
    exact ⟨rfl, rfl⟩
  · exact isValid_namedSpans t s hs

/-! ## The rules of a clause and of a text -/

namespace Clause

/-- The recurring rules are well formed, and the weekly one comes first. -/
theorem wellFormed_recurringRules (shifts exceptHolidays : Bool) (t : Text) :
    ∃ (weekly : Option ClosureRule) (ordinals : List ClosureRule) (monthly : Option ClosureRule),
      recurringRules shifts exceptHolidays t = weekly.toList ++ ordinals ++ monthly.toList ∧
      (∀ r ∈ weekly, r.WellFormed ∧ r.kind = .weekly) ∧
      (∀ r ∈ ordinals, r.WellFormed ∧ r.kind = .ordinal) ∧
      ∀ r ∈ monthly, r.WellFormed ∧ r.kind = .monthly := by
  refine ⟨_, _, _, rfl, ?_, ?_, ?_⟩
  · intro r hr
    obtain ⟨s, -, hs⟩ := Option.bind_eq_some_iff.1 hr
    exact wellFormed_of_mem_weeklyRule? hs
  · exact fun r hr => wellFormed_of_mem_extractOrdinals hr
  · exact fun r hr => wellFormed_of_mem_extractMonthly hr

/-- The rules of the main clause are well formed and stand in order. -/
theorem wellFormed_readMain (t : Text) :
    ∃ (weekly : Option ClosureRule) (ordinals : List ClosureRule)
      (monthly dated : Option ClosureRule),
      (readMain t).rules = weekly.toList ++ ordinals ++ monthly.toList ++ dated.toList ∧
      (∀ r ∈ weekly, r.WellFormed ∧ r.kind = .weekly) ∧
      (∀ r ∈ ordinals, r.WellFormed ∧ r.kind = .ordinal) ∧
      (∀ r ∈ monthly, r.WellFormed ∧ r.kind = .monthly) ∧
      ∀ r ∈ dated, r.WellFormed ∧ r.kind = .dated := by
  obtain ⟨weekly, ordinals, monthly, hrules, hweekly, hordinals, hmonthly⟩ :=
    wellFormed_recurringRules (Closed.shift.occursIn t)
      (Closed.openOnHolidays.occursIn (Closed.shift.blankOut t))
      (extractDates (withoutRemarks t)).2
  refine ⟨weekly, ordinals, monthly, (extractDates (withoutRemarks t)).1, ?_, hweekly, hordinals,
    hmonthly, fun r hr => wellFormed_of_mem_extractDates hr⟩
  rw [rules_readMain, rulesFrom, hrules]

end Clause

theorem Text.length_cut (isSep : Char → Bool) (t : Text) :
    (cut isSep t).length = t.countP isSep + 1 := by
  induction t with
  | nil => rfl
  | cons c t ih =>
    rw [cut]
    split
    · next h => rw [List.length_cons, ih, List.countP_cons_of_pos h]
    · next h =>
      rw [List.countP_cons_of_neg h, ← ih, length_extendHead c (cut_ne_nil isSep t)]

/-! ## A date that the rule closes -/

namespace ClosureRule

/-- A date that the rule is about and that is no holiday is closed. -/
theorem under_closes_of_triggers {holidays : HolidayCalendar} {date : Date}
    (hday : holidays date = false) (htriggers : r.triggers date = true) :
    (r.closes date).under holidays = true := by
  have hshifted (shifts : Bool) : (shifted r.triggers shifts date).under holidays = true := by
    rw [under_shifted, if_pos htriggers, hday, Bool.and_false, Bool.not_false]
  cases r with
  | weekly weekdays onHolidaysToo shifts exceptHolidays =>
    simp only [closes, HolidayQuery.under_bind, HolidayQuery.under_onlyIf,
      HolidayQuery.under_isHoliday, hday, Bool.and_false, Bool.false_eq_true, if_false]
    exact hshifted shifts
  | monthly days shifts => exact hshifted shifts
  | ordinal ordinals weekday shifts => exact hshifted shifts
  | dated days spans => exact htriggers

/-- The fifth weekday of its kind, in a month that has one. -/
theorem exists_fifth (d : Weekday) :
    ∃ date : Date, date.weekday = d ∧ ordinalInMonth date = 5 := by
  cases d with
  | mon => exact ⟨⟨2026, 3, 30, by decide⟩, by decide, by decide⟩
  | tue => exact ⟨⟨2026, 3, 31, by decide⟩, by decide, by decide⟩
  | wed => exact ⟨⟨2026, 4, 29, by decide⟩, by decide, by decide⟩
  | thu => exact ⟨⟨2026, 1, 29, by decide⟩, by decide, by decide⟩
  | fri => exact ⟨⟨2026, 1, 30, by decide⟩, by decide, by decide⟩
  | sat => exact ⟨⟨2026, 1, 31, by decide⟩, by decide, by decide⟩
  | sun => exact ⟨⟨2026, 3, 29, by decide⟩, by decide, by decide⟩

/-- The n-th weekday of its kind is among the seven days that start after n - 1 weeks, except for the
fifth, for which a month may be too short. -/
theorem exists_ordinal {n : Nat} (hn : 1 ≤ n ∧ n ≤ 5) (d : Weekday) :
    ∃ date : Date, date.weekday = d ∧ ordinalInMonth date = n := by
  by_cases hfifth : n = 5
  · rw [hfifth]
    exact exists_fifth d
  · have hweek : 1 ≤ 7 * (n - 1) + 1 ∧ 7 * (n - 1) + 1 + 6 ≤ monthLength 2026 1 := by
      have hlength : monthLength 2026 1 = 31 := rfl
      omega
    obtain ⟨date, -, -, hday, hweekday⟩ :=
      Date.exists_date_in_week (y := 2026) (by decide) (m := 1) (by decide) hweek d
    refine ⟨date, hweekday, ?_⟩
    rw [ordinalInMonth]
    omega

theorem exists_monthDay {d : MonthDay} (hd : d.IsValid) :
    ∃ date : Date, MonthDay.ofDate date = d := by
  rw [MonthDay.IsValid, MonthDay.ofNumbers?] at hd
  split at hd
  · next hdate => exact ⟨⟨2024, d.month, d.day, hdate⟩, rfl⟩
  · exact absurd hd (by simp)

/-- **A well-formed rule is about some date**, unless it is one for holidays alone. -/
theorem WellFormed.exists_triggers (hr : r.WellFormed) :
    (∃ date, r.triggers date = true) ∨
      ∃ weekdays shifts exceptHolidays, r = .weekly weekdays true shifts exceptHolidays := by
  cases r with
  | weekly weekdays onHolidaysToo shifts exceptHolidays =>
    rcases hr with hdays | rfl
    · left
      obtain ⟨d, hd⟩ : ∃ d, weekdays.contains d = true := by
        rw [← Bool.not_eq_true, WeekdaySet.isEmpty_iff, not_forall] at hdays
        simpa using hdays
      obtain ⟨date, rfl⟩ := Date.exists_weekday_eq d
      exact ⟨date, hd⟩
    · exact .inr ⟨weekdays, shifts, exceptHolidays, rfl⟩
  | monthly days shifts =>
    left
    obtain ⟨n, ns, rfl⟩ := List.exists_cons_of_ne_nil hr.ne_nil
    have hn : 1 ≤ n ∧ n ≤ 31 := hr.bounded n List.mem_cons_self
    refine ⟨⟨2026, 1, n, by decide, by decide, hn⟩, ?_⟩
    rw [triggers]
    simp
  | ordinal ordinals weekday shifts =>
    left
    obtain ⟨n, ns, rfl⟩ := List.exists_cons_of_ne_nil hr.ne_nil
    obtain ⟨date, hweekday, hordinal⟩ :=
      exists_ordinal (hr.bounded n List.mem_cons_self) weekday
    refine ⟨date, ?_⟩
    rw [triggers, hweekday, hordinal]
    simp
  | dated days spans =>
    left
    obtain ⟨hne, hdays, hspans⟩ := hr
    rcases hne with hne | hne
    · obtain ⟨d, ds, rfl⟩ := List.exists_cons_of_ne_nil hne
      obtain ⟨date, hdate⟩ := exists_monthDay (hdays d List.mem_cons_self)
      refine ⟨date, ?_⟩
      rw [triggers, hdate]
      simp
    · obtain ⟨s, ss, rfl⟩ := List.exists_cons_of_ne_nil hne
      obtain ⟨date, hdate⟩ := exists_monthDay (hspans s List.mem_cons_self).1
      refine ⟨date, ?_⟩
      rw [triggers, hdate]
      simp [DateSpan.includes_start]

/-- **A well-formed rule closes a date**, for some holidays. -/
theorem WellFormed.exists_closes (hr : r.WellFormed) :
    ∃ (date : Date) (f : FixedHolidays), (r.closes date).under f.calendar = true := by
  rcases hr.exists_triggers with ⟨date, htriggers⟩ | ⟨weekdays, shifts, exceptHolidays, rfl⟩
  · exact ⟨date, {}, under_closes_of_triggers rfl htriggers⟩
  · obtain ⟨date⟩ : Nonempty Date := ⟨⟨2026, 1, 1, by decide⟩⟩
    have hholiday : (FixedHolidays.mk [date]).calendar date = true := by
      simp [FixedHolidays.calendar]
    refine ⟨date, ⟨[date]⟩, ?_⟩
    simp [closes, hholiday]

end ClosureRule

namespace ClosedDays

/-- The rules of the clauses: those of the main clause, and one for days of the year at most for each
remark. -/
theorem wellFormed_readClauses (t : Text) :
    (∀ r ∈ (readClauses t).flatMap Clause.rules, r.WellFormed) ∧
      ClosureRule.InOrder (t.count '※' + 1) ((readClauses t).flatMap Clause.rules) := by
  obtain ⟨main, remarks, hcut⟩ := List.exists_cons_of_ne_nil (Text.cut_ne_nil (· == '※') t)
  obtain ⟨weekly, ordinals, monthly, dated, hrules, hweekly, hordinals, hmonthly, hdated⟩ :=
    Clause.wellFormed_readMain main
  have hlength : remarks.length = t.count '※' := by
    have hpieces := Text.length_cut (· == '※') t
    rw [hcut, List.length_cons] at hpieces
    exact Nat.succ.inj hpieces
  have hremarks : (remarks.map Clause.readRemark).flatMap Clause.rules =
      (remarks.map fun u => (extractDates u).1).flatMap Option.toList := by
    rw [List.flatMap_map, List.flatMap_map]
    rfl
  have hread : (readClauses t).flatMap Clause.rules = weekly.toList ++ ordinals ++
      monthly.toList ++ (dated :: remarks.map fun u => (extractDates u).1).flatMap Option.toList := by
    rw [readClauses, hcut]
    dsimp only
    rw [List.flatMap_cons, hrules, hremarks, List.flatMap_cons, List.append_assoc]
  have hall : ∀ r ∈ (dated :: remarks.map fun u => (extractDates u).1).flatMap Option.toList,
      r.WellFormed ∧ r.kind = .dated := by
    intro r hr
    obtain ⟨o, ho, hr⟩ := List.mem_flatMap.1 hr
    rw [Option.mem_toList] at hr
    rcases List.mem_cons.1 ho with heq | ho
    · exact hdated r (by rw [← heq]; exact hr)
    · obtain ⟨u, -, rfl⟩ := List.mem_map.1 ho
      exact wellFormed_of_mem_extractDates hr
  rw [hread]
  constructor
  · intro r hr
    simp only [List.mem_append, Option.mem_toList] at hr
    rcases hr with ((hr | hr) | hr) | hr
    · exact (hweekly r hr).1
    · exact (hordinals r hr).1
    · exact (hmonthly r hr).1
    · exact (hall r hr).1
  · refine ⟨weekly, ordinals, monthly, _, rfl, ?_, fun r hr => (hweekly r hr).2,
      fun r hr => (hordinals r hr).2, fun r hr => (hmonthly r hr).2, fun r hr => (hall r hr).2⟩
    rw [List.length_cons, List.length_map, hlength]

/-- **The rules of every text are well formed, live and in order.** Each of them closes a date for
some holidays, and the text has one clause more than its normal form has marks for remarks. -/
theorem wellFormed_rules (raw : Option Text) :
    (∀ r ∈ (ofText raw).rules, r.WellFormed ∧
      ∃ (date : Date) (f : FixedHolidays), (r.closes date).under f.calendar = true) ∧
    ClosureRule.InOrder (((ofText raw).normalized.getD []).count '※' + 1) (ofText raw).rules := by
  obtain ⟨hformed, horder⟩ : (∀ r ∈ (ofText raw).rules, r.WellFormed) ∧
      ClosureRule.InOrder (((ofText raw).normalized.getD []).count '※' + 1)
        (ofText raw).rules := by
    cases raw with
    | none =>
      refine ⟨fun r hr => absurd hr List.not_mem_nil, none, [], none, [none], rfl, rfl, ?_⟩
      simp
    | some t =>
      have hnormalized : (ofText (some t)).normalized = some (Text.normalize t) := by
        rw [ofText_some]
      rw [hnormalized, rules_ofText]
      exact wellFormed_readClauses (Text.normalize t)
  exact ⟨fun r hr => ⟨hformed r hr, (hformed r hr).exists_closes⟩, horder⟩

/-- Every kind of rule, in a text that names them in another order. -/
example : (ofText (some "8/13、毎月15日、第1・第5火曜日、月曜日 ※12/31".toList)).rules =
    [.weekly (.single .mon) false false false, .ordinal [1, 5] .tue false, .monthly [15] false,
      .dated [⟨8, 13⟩] [], .dated [⟨12, 31⟩] []] := by
  decide +kernel

end ClosedDays

end OpeningHours
