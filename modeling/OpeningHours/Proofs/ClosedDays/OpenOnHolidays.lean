import Mathlib.Data.List.Basic
import OpeningHours.Proofs.ClosedDays.ClosedDaysText
import OpeningHours.Proofs.ClosedDays.WellFormed
import OpeningHours.Proofs.Schedule.Availability

/-!
# Open on holidays

A phrase about closed days may be followed by the remark that the facility is open on holidays, as
in `月曜日(祝日は開館)`. The remark is looked for in the whole main clause and blanked out, but only
the weekly rule takes it up. So a facility that is closed on Mondays is open on a Monday that is a
holiday, and a facility that is closed on the third Wednesday of the month stays closed on it.

* `ClosureRule.exceptingHolidays`: the rule with the remark;
* `Clause.rulesFrom_exceptHolidays`: what the remark changes in the rules of any clause;
* `rules_text`, `rules_openRemark`: a phrase alone, and the phrase with the remark;
* **`openOnHolidays_honoured_iff`**: what the remark changes for each phrase and each date, and that
  it is honoured exactly by lists of weekdays.
-/

namespace OpeningHours

open Pattern

/-- The rule where the facility is open on holidays. Only a weekly rule can say so. -/
def ClosureRule.exceptingHolidays : ClosureRule → ClosureRule
  | .weekly weekdays onHolidaysToo shifts _ => .weekly weekdays onHolidaysToo shifts true
  | r => r

theorem ClosureRule.exceptingHolidays_of_kind {r : ClosureRule} (hr : r.kind ≠ .weekly) :
    r.exceptingHolidays = r := by
  cases r with
  | weekly weekdays onHolidaysToo shifts exceptHolidays => exact absurd rfl hr
  | _ => rfl

/-! ## The rules of a clause -/

namespace Clause

theorem weeklyRule?_exceptHolidays (s : DayScope) (shifts : Bool) :
    weeklyRule? s shifts true = (weeklyRule? s shifts false).map .exceptingHolidays := by
  rw [weeklyRule?, weeklyRule?]
  split <;> rfl

/-- Rules of another kind than weekly are left as they are. -/
theorem map_exceptingHolidays_of_kind {rules : List ClosureRule} {k : ClosureRule.Kind}
    (hk : k ≠ .weekly) (hrules : ∀ r ∈ rules, r.WellFormed ∧ r.kind = k) :
    rules.map .exceptingHolidays = rules := by
  conv_rhs => rw [← List.map_id rules]
  refine List.map_congr_left fun r hr => ClosureRule.exceptingHolidays_of_kind ?_
  rw [(hrules r hr).2]
  exact hk

/-- **In every clause the remark changes the weekly rule alone.** -/
theorem rulesFrom_exceptHolidays (shifts : Bool) (t : Text) :
    rulesFrom shifts true t = (rulesFrom shifts false t).map .exceptingHolidays := by
  have hordinals (u : Text) : (extractOrdinals shifts u).1.map .exceptingHolidays =
      (extractOrdinals shifts u).1 :=
    map_exceptingHolidays_of_kind (by decide) fun _ hr => wellFormed_of_mem_extractOrdinals hr
  have hmonthly (u : Text) : (extractMonthly shifts u).1.toList.map .exceptingHolidays =
      (extractMonthly shifts u).1.toList :=
    map_exceptingHolidays_of_kind (by decide) fun _ hr =>
      wellFormed_of_mem_extractMonthly (Option.mem_toList.1 hr)
  have hdated (u : Text) : (extractDates u).1.toList.map .exceptingHolidays =
      (extractDates u).1.toList :=
    map_exceptingHolidays_of_kind (by decide) fun _ hr =>
      wellFormed_of_mem_extractDates (Option.mem_toList.1 hr)
  have hweekly (days : Option DayScope) : (days.bind fun s => weeklyRule? s shifts true).toList =
      (days.bind fun s => weeklyRule? s shifts false).toList.map .exceptingHolidays := by
    cases days with
    | none => rfl
    | some s =>
      rw [Option.bind_some, Option.bind_some, weeklyRule?_exceptHolidays]
      cases weeklyRule? s shifts false <;> rfl
  simp only [rulesFrom, recurringRules, List.map_append, hweekly, hordinals, hmonthly, hdated]

end Clause

/-! ## Phrases alone -/

namespace ClosurePhrase

variable (p : ClosurePhrase)

/-- The rule that the phrase states. -/
def rule : ClosurePhrase → ClosureRule
  | weekdays days _ => .weekly (.ofList days) false false false
  | ordinals numbers _ day => .ordinal (numbers.map fun n => n.value.val).toFinset.sort day false
  | monthly days _ => .monthly (days.map DayNumeral.value).toFinset.sort false
  | date day => .dated [day.monthDay] []
  | span first last => .dated [] [⟨first.monthDay, last.monthDay⟩]

/-- The phrase as a text of its own. -/
def alone : ClosedDaysText :=
  ⟨[p], List.cons_ne_nil p [], false⟩

theorem text_alone : p.alone.text = p.text := by
  simp [alone, ClosedDaysText.text]

theorem rules_alone : p.alone.rules = [p.rule] := by
  cases p with
  | weekdays days ne =>
    have hweekly : ClosurePhrase.weeklyRule? false [weekdays days ne] =
        some (.weekly (.ofList days) false false false) := by
      simp [ClosurePhrase.weeklyRule?, weeklyDays, ne]
    rw [ClosedDaysText.rules, alone, hweekly]
    rfl
  | monthly days ne =>
    have hmonthly : monthlyRule? false [monthly days ne] =
        some (.monthly (days.map DayNumeral.value).toFinset.sort false) := by
      simp [monthlyRule?, daysOfMonth, ne]
    rw [ClosedDaysText.rules, alone, hmonthly]
    rfl
  | ordinals numbers ne day => rfl
  | date day => rfl
  | span first last => rfl

/-- What is left of the phrase without remarks is the phrase, and it states its rule. -/
theorem rulesFrom_text : Clause.rulesFrom false false p.text = [p.rule] := by
  have hleft : joined '、' (left 0) p.alone.phrases (remarkLeft p.alone.shifts) = p.text := by
    simp [joined, alone, left, remarkLeft]
  have hopen : Wording.Closed.openOnHolidays.occursIn p.text = false :=
    occursIn_of_isMuteOver (by decide) p.text_subset
  have hmain := Clause.rules_readMain p.alone.text
  rw [p.alone.readMain_text, p.alone.occursIn_shift, p.alone.blankOut_shift,
    p.alone.withoutRemarks_text, hleft, hopen, rules_alone] at hmain
  exact hmain.symm

/-- The rules of a phrase, perhaps with a remark, are those of its main clause. -/
theorem rules_ofText_of_subset {t : Text} (hne : t ≠ [])
    (ht : t ⊆ ClosedDaysText.alphabet ++ ['開', '館']) :
    (ClosedDays.ofText (some t)).rules = (Clause.readMain t).rules := by
  have htidy : Text.Tidy t := .of_subset (by decide) ht hne
  have hmark : '※' ∉ ClosedDaysText.alphabet ++ ['開', '館'] := by decide
  rw [ClosedDays.rules_ofText_of_no_remark (fun hmem => hmark (ht hmem)), htidy.normalize]

/-- **A phrase alone is read as its rule.** -/
theorem rules_text : (ClosedDays.ofText (some p.text)).rules = [p.rule] := by
  have hsub : p.text ⊆ ClosedDaysText.alphabet ++ ['開', '館'] :=
    List.Subset.trans p.text_subset (by decide)
  rw [rules_ofText_of_subset p.text_ne_nil hsub, ← p.text_alone, p.alone.readMain_text,
    p.rules_alone]

/-! ## Phrases with the remark -/

/-- The remark that the facility is open on holidays. -/
def openRemark : Text :=
  "(祝日は開館)".toList

/-- The remark is taken as a whole. -/
theorem prefers_openRemark :
    Wording.Closed.openOnHolidays.Prefers openRemark ⟨openRemark, [], []⟩ := by
  have hchars : openRemark = ['(', '祝', '日', 'は', '開', '館', ')'] := rfl
  have hopen := (prefers_word "(" ['祝', '日', 'は', '開', '館', ')']).opt
  have hholiday : Wording.holiday.Prefers ['祝', '日', 'は', '開', '館', ')'] _ :=
    .alt_right (fails_word rfl) (.alt_right (fails_word rfl)
      ((prefers_word "祝日" ['は', '開', '館', ')']).alt_left _))
  have hcase : (opt (anyWord ["の場合", "のとき", "の時", "と重なる場合", "にあたる場合"])).Prefers
      ['は', '開', '館', ')'] _ := Fails.opt (fails_of_mayStart rfl rfl _)
  have htopic := prefers_word "は" ['開', '館', ')']
  have hstay : (anyWord ["開館", "開園", "開場", "営業", "開所"]).Prefers ['開', '館', ')'] _ :=
    (prefers_word "開館" [')']).alt_left _
  have hpolite : (opt (anyWord ["します", "いたします"])).Prefers [')'] _ :=
    Fails.opt (fails_of_mayStart rfl rfl _)
  have hclose := (prefers_word ")" []).opt
  rw [hchars]
  exact (((((hopen.seq hholiday).seq hcase).seq htopic).seq hstay).seq hpolite).seq hclose

theorem skips_openOnHolidays (rest : Text) : Wording.Closed.openOnHolidays.Skips p.text rest :=
  skips_of_subset (by decide) p.text_subset rest

theorem blankOut_openOnHolidays :
    Wording.Closed.openOnHolidays.blankOut (p.text ++ openRemark) = p.text ++ [' '] := by
  have hphrase : Wording.Closed.openOnHolidays.Reads (fun _ h => some h) none p.text
      (openRemark ++ []) [] p.text := .of_skips (p.skips_openOnHolidays _)
  have hremark : Wording.Closed.openOnHolidays.Reads (fun _ h => some h) (p.text.getLast?.or none)
      openRemark [] [_] [' '] := .of_hit (by decide) prefers_openRemark rfl
  exact congrArg Prod.snd (extract_of_reads (hphrase.append hremark))

/-- **A phrase with the remark is read as its rule with the remark.** -/
theorem rules_openRemark :
    (ClosedDays.ofText (some (p.text ++ openRemark))).rules = [p.rule.exceptingHolidays] := by
  have hsub : p.text ++ openRemark ⊆ openRemark ++ alphabet :=
    List.append_subset.2 ⟨List.subset_append_of_subset_right _ p.text_subset,
      List.subset_append_left _ _⟩
  have hshift : Wording.Closed.shift.isMuteOver (openRemark ++ alphabet) = true := by decide
  have hopen : Wording.Closed.openOnHolidays.occursIn (p.text ++ openRemark) = true :=
    occursIn_of_skips (p.skips_openOnHolidays _) prefers_openRemark (by decide)
  have hleft : p.text ++ [' '] ⊆ ' ' :: alphabet :=
    List.append_subset.2 ⟨List.subset_cons_of_subset _ p.text_subset, by simp⟩
  have hmute {q : Pattern} (hq : q.isMuteOver (' ' :: alphabet) = true) :
      q.blankOut (p.text ++ [' ']) = p.text ++ [' '] := blankOut_of_isMuteOver hq hleft
  have hwithout : Clause.withoutRemarks (p.text ++ openRemark) = p.text ++ [' '] := by
    simp only [Clause.withoutRemarks, List.foldl_cons, List.foldl_nil,
      blankOut_of_isMuteOver hshift hsub, p.blankOut_openOnHolidays,
      hmute (q := Wording.Closed.dayAfterHoliday) (by decide),
      hmute (q := Wording.Closed.never) (by decide),
      hmute (q := Wording.Closed.irregular) (by decide), hmute (q := Wording.inquiry) (by decide)]
  rw [rules_ofText_of_subset (by simp [p.text_ne_nil]) (List.Subset.trans hsub (by decide)),
    Clause.rules_readMain, occursIn_of_isMuteOver hshift hsub, blankOut_of_isMuteOver hshift hsub,
    hopen, hwithout, Clause.rulesFrom_append_gap (by decide), Clause.rulesFrom_exceptHolidays,
    rulesFrom_text, List.map_singleton]

/-! ## Closed dates -/

/-- Whether the phrase is a list of weekdays. -/
def isWeekdays : ClosurePhrase → Bool
  | weekdays _ _ => true
  | _ => false

variable {p} {holidays : HolidayCalendar} {date : Date}

/-- The rule of a phrase closes what it is about, whatever the holidays. -/
theorem under_closes_rule :
    (p.rule.closes date).under holidays = p.rule.triggers date := by
  cases p <;> simp [rule, ClosureRule.closes, ClosureRule.under_shifted]

/-- A weekly rule with the remark closes its weekdays, holidays excepted. -/
theorem under_closes_weekly_excepting (weekdays : WeekdaySet) :
    ((ClosureRule.weekly weekdays false false true).closes date).under holidays =
      (weekdays.contains date.weekday && !holidays date) := by
  have htriggers (d : Date) : (ClosureRule.weekly weekdays false false true).triggers d =
      weekdays.contains d.weekday := rfl
  rw [ClosureRule.closes]
  cases htrigger : weekdays.contains date.weekday with
  | false => simp [htriggers, htrigger, ClosureRule.under_shifted]
  | true =>
    cases hholiday : holidays date <;>
      simp [htriggers, htrigger, hholiday, ClosureRule.under_shifted]

/-- With the remark a list of weekdays does not close holidays, and no other phrase heeds it. -/
theorem under_closes_exceptingHolidays :
    (p.rule.exceptingHolidays.closes date).under holidays =
      (p.rule.triggers date && !(p.isWeekdays && holidays date)) := by
  by_cases hkind : p.rule.kind = .weekly
  · cases p with
    | weekdays days ne => exact under_closes_weekly_excepting (.ofList days)
    | _ => exact absurd hkind (by simp [rule, ClosureRule.kind])
  · have hother : p.isWeekdays = false := by
      cases p with
      | weekdays days ne => exact absurd rfl hkind
      | _ => rfl
    rw [ClosureRule.exceptingHolidays_of_kind hkind, under_closes_rule, hother, Bool.false_and,
      Bool.not_false, Bool.and_true]

/-- A text with one rule is closed on the dates that the rule closes. -/
theorem under_isClosedOn_of_rules_eq {c : ClosedDays} {r : ClosureRule} (hc : c.rules = [r]) :
    (c.isClosedOn date).under holidays = .ofBool ((r.closes date).under holidays) := by
  have hne : c.rules ≠ [] := by simp [hc]
  rw [ClosedDays.under_isClosedOn_of_rules hne, hc]
  simp

/-- Some date is closed by the phrase. -/
theorem exists_triggers (p : ClosurePhrase) : ∃ date, p.rule.triggers date = true := by
  have hmem : p.rule ∈ (ClosedDays.ofText (some p.text)).rules := by
    rw [p.rules_text]
    exact List.mem_singleton_self _
  rw [ClosedDays.rules_ofText] at hmem
  have hformed : p.rule.WellFormed := (ClosedDays.wellFormed_readClauses _).1 _ hmem
  rcases hformed.exists_triggers with hdate | ⟨weekdays, shifts, exceptHolidays, hrule⟩
  · exact hdate
  · cases p <;> simp [rule] at hrule

/-- **The remark is honoured by lists of weekdays and by no other phrase.** With the remark a list of
weekdays is open on holidays and as before on all other dates. Every other phrase is read as if the
remark were not there, and so some holiday is closed by it. -/
theorem openOnHolidays_honoured_iff (p : ClosurePhrase) :
    (∀ (holidays : HolidayCalendar) (date : Date),
      ((ClosedDays.ofText (some (p.text ++ openRemark))).isClosedOn date).under holidays =
        if p.isWeekdays && holidays date then .no
        else ((ClosedDays.ofText (some p.text)).isClosedOn date).under holidays) ∧
    ((∀ (holidays : HolidayCalendar) (date : Date),
        (holidays date = true →
          ((ClosedDays.ofText (some (p.text ++ openRemark))).isClosedOn date).under holidays ≠
            .yes) ∧
        (holidays date = false →
          ((ClosedDays.ofText (some (p.text ++ openRemark))).isClosedOn date).under holidays =
            ((ClosedDays.ofText (some p.text)).isClosedOn date).under holidays)) ↔
      p.isWeekdays = true) := by
  have halone (holidays : HolidayCalendar) (date : Date) :
      ((ClosedDays.ofText (some p.text)).isClosedOn date).under holidays =
        .ofBool (p.rule.triggers date) := by
    rw [under_isClosedOn_of_rules_eq p.rules_text, under_closes_rule]
  have hremark (holidays : HolidayCalendar) (date : Date) :
      ((ClosedDays.ofText (some (p.text ++ openRemark))).isClosedOn date).under holidays =
        .ofBool (p.rule.triggers date && !(p.isWeekdays && holidays date)) := by
    rw [under_isClosedOn_of_rules_eq p.rules_openRemark, under_closes_exceptingHolidays]
  simp only [halone, hremark]
  refine ⟨fun holidays date => ?_, fun hhonoured => ?_, fun hweekdays holidays date => ?_⟩
  · cases p.isWeekdays && holidays date <;> simp
  · by_contra hother
    obtain ⟨date, hdate⟩ := p.exists_triggers
    have hopen := (hhonoured (fun _ => true) date).1 rfl
    simp [hdate, hother] at hopen
  · refine ⟨fun hholiday => ?_, fun hworkday => ?_⟩
    · simp [hweekdays, hholiday]
    · rw [hworkday, Bool.and_false, Bool.not_false, Bool.and_true]

/-- The third Wednesday of the month with the remark. -/
def thirdWednesday : ClosurePhrase :=
  .ordinals [⟨3, by decide, false⟩] (by decide) .wed

/-- The third Wednesday of April 2026 is closed even if it is a holiday on which the facility is said
to be open. -/
theorem thirdWednesday_closed_on_holiday :
    thirdWednesday.text ++ openRemark = "第3水曜日(祝日は開館)".toList ∧
    ((ClosedDays.ofText (some "第3水曜日(祝日は開館)".toList)).isClosedOn
      ⟨2026, 4, 15, by decide⟩).under (fun d => d == ⟨2026, 4, 15, by decide⟩) = .yes := by
  refine ⟨by decide, ?_⟩
  decide +kernel

end ClosurePhrase

end OpeningHours
