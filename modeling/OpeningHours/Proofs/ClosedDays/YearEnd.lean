import Mathlib.Data.List.Basic
import OpeningHours.Proofs.ClosedDays.Remarks

/-!
# The break around the new year next to other dates

`年末年始` names the break from the 29th of December to the third of January. The words are looked
for after the dates of the clause have been read, and they are read as the break only where no date
and no span of dates has been found; else they are dropped.

* `namedSpans`, `namedDays`: the spans of dates and the dates that exist in a clause;
* `infix_withoutRemarks`: the passes before the dates leave the words as they are;
* `extractDates_yearEnd`: what the words are read as, next to the dates of the clause;
* **`isClosedOn_yearEnd_iff`**: a date of the break is closed exactly if the clause names no date at
  all, names that very date, or closes it by a recurring rule.
-/

namespace OpeningHours

open Pattern Wording

variable {t : Text}

/-! ## What a clause names -/

/-- The words for the break around the new year. -/
def yearEndWords : Text :=
  "年末年始".toList

/-- The spans of dates that a clause names. -/
def namedSpans (t : Text) : List DateSpan :=
  (Closed.dateSpan.extract (fun _ h => some h.dateSpan?) t).1.filterMap id

/-- What is left of a clause without its spans of dates. -/
def afterSpans (t : Text) : Text :=
  (Closed.dateSpan.extract (fun _ h => some h.dateSpan?) t).2

/-- The dates that a clause names outside its spans. -/
def namedDays (t : Text) : List MonthDay :=
  (Closed.oneDate.extract (fun _ h => some h.oneDate?) (afterSpans t)).1.filterMap id

/-- What is left of a clause without its dates. -/
def afterDates (t : Text) : Text :=
  (Closed.oneDate.extract (fun _ h => some h.oneDate?) (afterSpans t)).2

/-- Whether the rule recurs, rather than naming days of the year. -/
def ClosureRule.recurs : ClosureRule → Bool
  | .dated _ _ => false
  | _ => true

/-! ## The words outlast the passes before them -/

theorem isWordPart_yearEndWords : ∀ c ∈ yearEndWords, Text.isWordPart c = true :=
  List.all_eq_true.1 (by decide)

theorem not_isListMark_yearEndWords : ∀ c ∈ yearEndWords, Text.isListMark c = false := by
  intro c hc
  have hword : yearEndWords.all (fun c => !Text.isListMark c) = true := by decide
  simpa using List.all_eq_true.1 hword c hc

theorem infix_foldl_blankOut {w : Text} {ps : List Pattern} (hps : ∀ p ∈ ps, p.spares w = true)
    (ht : w <:+: t) : w <:+: ps.foldl (fun rest p => p.blankOut rest) t := by
  induction ps generalizing t with
  | nil => exact ht
  | cons p ps ih =>
    have hblank : w <:+: p.blankOut t := infix_extract _ (hps p List.mem_cons_self) ht
    exact ih (fun q hq => hps q (List.mem_cons_of_mem p hq)) hblank

/-- No pass before the dates reaches into the words. -/
theorem infix_withoutRemarks (ht : yearEndWords <:+: t) :
    yearEndWords <:+: Clause.withoutRemarks t :=
  infix_foldl_blankOut (by decide) ht

theorem infix_afterDates (ht : yearEndWords <:+: t) : yearEndWords <:+: afterDates t :=
  infix_extract _ (by decide) (infix_extract _ (by decide) ht)

/-- **The words are the break where the clause names no dates**; next to dates they are nothing. -/
theorem extractDates_yearEnd (ht : yearEndWords <:+: t) :
    (extractDates t).1 = some (ClosureRule.dated (namedDays t)
      (if namedSpans t = [] ∧ namedDays t = [] then [DateSpan.yearEnd] else namedSpans t)) := by
  have hoccurs : Closed.yearEnd.occursIn (afterDates t) = true :=
    occursIn_word (by decide) (infix_afterDates ht)
  have hread : (extractDates t).1 = datedRule? (namedDays t)
      (if Closed.yearEnd.occursIn (afterDates t) && (namedSpans t).isEmpty && (namedDays t).isEmpty
        then [DateSpan.yearEnd] else namedSpans t) := rfl
  rw [hread, hoccurs, datedRule?]
  cases hspans : namedSpans t with
  | nil => cases hdays : namedDays t <;> simp
  | cons s spans => simp

/-! ## Recurring rules -/

theorem recurs_of_mem_extractOrdinals {shifts : Bool} {r : ClosureRule}
    (hr : r ∈ (extractOrdinals shifts t).1) : r.recurs = true := by
  obtain ⟨b, h, -, hordinal⟩ := exists_hit_of_mem_filterMap_extract hr
  rw [Hit.ordinalRule?] at hordinal
  split at hordinal
  · exact absurd hordinal (by simp)
  · obtain ⟨weekday, -, rfl⟩ := Option.map_eq_some_iff.1 hordinal
    rfl

theorem recurs_of_mem_extractMonthly {shifts : Bool} {r : ClosureRule}
    (hr : r ∈ (extractMonthly shifts t).1) : r.recurs = true := by
  simp only [extractMonthly, Option.mem_def] at hr
  split at hr
  · exact absurd hr (by simp)
  · obtain rfl := Option.some.inj hr
    rfl

theorem recurs_of_mem_weeklyRule? {s : DayScope} {shifts exceptHolidays : Bool} {r : ClosureRule}
    (hr : r ∈ weeklyRule? s shifts exceptHolidays) : r.recurs = true := by
  simp only [weeklyRule?, Option.mem_def] at hr
  split at hr
  · obtain rfl := Option.some.inj hr
    rfl
  · exact absurd hr (by simp)

theorem recurs_of_mem_recurringRules {shifts exceptHolidays : Bool} {r : ClosureRule}
    (hr : r ∈ Clause.recurringRules shifts exceptHolidays t) : r.recurs = true := by
  rcases Clause.mem_recurringRules.1 hr with ⟨s, -, hs⟩ | hordinal | hmonthly
  · exact recurs_of_mem_weeklyRule? hs
  · exact recurs_of_mem_extractOrdinals hordinal
  · exact recurs_of_mem_extractMonthly hmonthly

/-! ## Closed dates -/

/-- The dates of the break. -/
theorem includes_yearEnd {date : Date}
    (hdate : date.month = 12 ∧ 29 ≤ date.day ∨ date.month = 1 ∧ date.day ≤ 3) :
    DateSpan.yearEnd.includes (.ofDate date) = true := by
  have hwraps : ¬ DateSpan.yearEnd.start ≤ DateSpan.yearEnd.finish := by decide
  rw [DateSpan.includes, if_neg hwraps, Bool.or_eq_true, decide_eq_true_eq, decide_eq_true_eq,
    MonthDay.le_iff, MonthDay.le_iff]
  simp only [DateSpan.yearEnd, MonthDay.ofDate]
  omega

/-- The rule for the days of the year closes a date of the break if the clause names no date, or
this one. -/
theorem under_closes_yearEnd (holidays : HolidayCalendar) (days : List MonthDay)
    (spans : List DateSpan) {date : Date}
    (hdate : DateSpan.yearEnd.includes (.ofDate date) = true) :
    ((ClosureRule.dated days (if spans = [] ∧ days = [] then [DateSpan.yearEnd] else spans)).closes
        date).under holidays = true ↔
      (spans = [] ∧ days = []) ∨ MonthDay.ofDate date ∈ days ∨
        ∃ s ∈ spans, s.includes (.ofDate date) = true := by
  rw [ClosureRule.closes, HolidayQuery.under_pure]
  by_cases hnone : spans = [] ∧ days = []
  · simp [ClosureRule.triggers, hnone, hdate]
  · simp [ClosureRule.triggers, hnone]

/-- **The break next to other dates.** In a text without remarks that names the break, a date of the
break is surely closed exactly if the text names no date that exists and no span of such dates, or
names that very date, or closes it by a recurring rule. -/
theorem isClosedOn_yearEnd_iff (hremark : '※' ∉ t) (hbreak : yearEndWords <:+: t)
    (holidays : HolidayCalendar) {date : Date}
    (hdate : date.month = 12 ∧ 29 ≤ date.day ∨ date.month = 1 ∧ date.day ≤ 3) :
    ((ClosedDays.ofText (some t)).isClosedOn date).under holidays = .yes ↔
      let clause := Clause.withoutRemarks (Text.normalize t)
      (namedSpans clause = [] ∧ namedDays clause = []) ∨ MonthDay.ofDate date ∈ namedDays clause ∨
        (∃ s ∈ namedSpans clause, s.includes (.ofDate date) = true) ∨
        ∃ r ∈ (ClosedDays.ofText (some t)).rules,
          r.recurs = true ∧ (r.closes date).under holidays = true := by
  have hnormal := Text.infix_normalize (List.cons_ne_nil _ _) isWordPart_yearEndWords
    not_isListMark_yearEndWords hbreak
  have hclause := infix_withoutRemarks hnormal
  have hrules := ClosedDays.rules_ofText_of_no_remark hremark
  rw [Clause.rules_readMain, Clause.rulesFrom, extractDates_yearEnd hclause] at hrules
  have hdated := under_closes_yearEnd holidays
    (namedDays (Clause.withoutRemarks (Text.normalize t)))
    (namedSpans (Clause.withoutRemarks (Text.normalize t))) (includes_yearEnd hdate)
  rw [ClosedDays.under_isClosedOn_eq_yes, hrules]
  constructor
  · rintro ⟨r, hr, hcloses⟩
    rcases List.mem_append.1 hr with hrecurring | hr
    · exact .inr (.inr (.inr ⟨r, hr, recurs_of_mem_recurringRules hrecurring, hcloses⟩))
    · obtain rfl := List.mem_singleton.1 hr
      rcases hdated.1 hcloses with hnone | hday | hspan
      · exact .inl hnone
      · exact .inr (.inl hday)
      · exact .inr (.inr (.inl hspan))
  · rintro (hnone | hday | hspan | ⟨r, hr, -, hcloses⟩)
    · exact ⟨_, List.mem_append_right _ List.mem_cons_self, hdated.2 (.inl hnone)⟩
    · exact ⟨_, List.mem_append_right _ List.mem_cons_self, hdated.2 (.inr (.inl hday))⟩
    · exact ⟨_, List.mem_append_right _ List.mem_cons_self, hdated.2 (.inr (.inr hspan))⟩
    · exact ⟨r, hr, hcloses⟩

/-- Next to Mondays the whole break is closed. -/
theorem yearEnd_beside_mondays :
    '※' ∉ "月曜日、年末年始".toList ∧ yearEndWords <:+: "月曜日、年末年始".toList ∧
      ((ClosedDays.ofText (some "月曜日、年末年始".toList)).isClosedOn ⟨2026, 12, 31, by decide⟩).under
        (fun _ => false) = .yes := by
  have hremark : '※' ∉ "月曜日、年末年始".toList := by decide
  have hbreak : yearEndWords <:+: "月曜日、年末年始".toList := ⟨"月曜日、".toList, [], by decide⟩
  refine ⟨hremark, hbreak, ?_⟩
  exact (isClosedOn_yearEnd_iff hremark hbreak _ (.inl ⟨rfl, by decide⟩)).2
    (.inl (by decide +kernel))

/-- Next to a day in August the break is lost. -/
theorem yearEnd_beside_august :
    '※' ∉ "年末年始、8/15".toList ∧ yearEndWords <:+: "年末年始、8/15".toList ∧
      namedSpans (Clause.withoutRemarks (Text.normalize "年末年始、8/15".toList)) = [] ∧
      ((ClosedDays.ofText (some "年末年始、8/15".toList)).isClosedOn ⟨2026, 12, 31, by decide⟩).under
        (fun _ => false) = .no := by
  refine ⟨by decide, ⟨[], "、8/15".toList, by decide⟩, by decide +kernel, by decide +kernel⟩

end OpeningHours
