import Mathlib.Data.List.Basic
import OpeningHours.ClosedDays.Reading
import OpeningHours.Proofs.Pattern.Continued
import OpeningHours.Proofs.Text.NormalForm
import OpeningHours.Proofs.Text.Pieces

/-!
# Remarks add to the main clause

The clauses after a `※` are remarks. A text is cut at these marks in its normal form, so the main
clause may end in a space or a line break that it does not have as a text of its own. The passes
that read the main clause do not care: none of them takes a gap at the end, and only one of them,
the statement that there are no regular closed days, asks whether the text ends.

* `KeepsGap`: a pass reads the same of a text with a gap at its end, and leaves the gap;
* `withoutRemarks_append_gap`: where a text is `なし` alone, the gap hides the statement from its
  pass, but there is no rule in such a text;
* `rules_readMain_append_gap`: the rules of the main clause are those of the clause without the gap;
* **`rules_append_remark`**: the rules of a text with remarks are those of the main clause followed
  by those of the remarks, so whatever the main clause closes stays closed.
-/

namespace OpeningHours

open Pattern Wording

variable {t : Text} {g : Char}

/-! ## A gap at the end -/

/-- Whether the reading reads the same of a text with a gap at its end, and leaves the gap at the
end of what it leaves. -/
def KeepsGap {α : Type} (read : Text → α × Text) : Prop :=
  ∀ (t : Text) (g : Char), Text.isGap g = true → read (t ++ [g]) = ((read t).1, (read t).2 ++ [g])

namespace Pattern

/-- Whether no hit of the pattern ends in a gap, and none asks whether the text ends. -/
def leavesGaps (p : Pattern) : Bool :=
  p.ignoresEnd && !p.mayEnd ' ' && !p.mayEnd '\n'

variable {p : Pattern}

theorem ignoresEnd_of_leavesGaps (hp : p.leavesGaps = true) : p.ignoresEnd = true := by
  simp only [leavesGaps, Bool.and_eq_true] at hp
  exact hp.1.1

theorem mayEnd_gap (hp : p.leavesGaps = true) (hg : Text.isGap g = true) :
    p.mayEnd g = false := by
  simp only [leavesGaps, Bool.and_eq_true, Bool.not_eq_true'] at hp
  rcases Text.eq_of_isGap hg with rfl | rfl
  · exact hp.1.2
  · exact hp.2

theorem occursIn_append_gap (hp : p.leavesGaps = true) (hg : Text.isGap g = true) (t : Text) :
    p.occursIn (t ++ [g]) = p.occursIn t :=
  occursIn_append_singleton (ignoresEnd_of_leavesGaps hp) (Text.isWordCharacter_gap hg)
    (mayEnd_gap hp hg) t

theorem blankOut_append_gap (hp : p.leavesGaps = true) (hg : Text.isGap g = true) (t : Text) :
    p.blankOut (t ++ [g]) = p.blankOut t ++ [g] :=
  blankOut_append_singleton (ignoresEnd_of_leavesGaps hp) (Text.isWordCharacter_gap hg)
    (mayEnd_gap hp hg) t

theorem keepsGap_extract {α : Type} (read : Option Char → Hit → Option α)
    (hp : p.leavesGaps = true)
    (hread : ∀ g before h, Text.isGap g = true → read before (h.extend [g]) = read before h) :
    KeepsGap (p.extract read) :=
  fun t g hg => extract_append_singleton (ignoresEnd_of_leavesGaps hp) (Text.isWordCharacter_gap hg)
    (mayEnd_gap hp hg) (fun before h => hread g before h hg) t

end Pattern

/-! ## The passes for rules -/

theorem keepsGap_extractDates : KeepsGap extractDates := by
  intro t g hg
  have hspans := keepsGap_extract (p := Closed.dateSpan) (fun _ h => some h.dateSpan?)
    (by decide) (fun _ _ _ _ => rfl) t g hg
  have hdays := keepsGap_extract (p := Closed.oneDate) (fun _ h => some h.oneDate?)
    (by decide) (fun _ _ _ _ => rfl)
    (Closed.dateSpan.extract (fun _ h => some h.dateSpan?) t).2 g hg
  simp only [extractDates, hspans, hdays, occursIn_append_gap (p := Closed.yearEnd) (by decide) hg,
    blankOut_append_gap (p := Closed.yearEnd) (by decide) hg]

theorem keepsGap_extractOrdinals (shifts : Bool) : KeepsGap (extractOrdinals shifts) := by
  intro t g hg
  have hordinals := keepsGap_extract (p := Closed.ordinalWeekday)
    (fun _ h => some (h.ordinalRule? shifts)) (by decide) (fun _ _ _ _ => rfl) t g hg
  simp only [extractOrdinals, hordinals]

theorem keepsGap_extractMonthly (shifts : Bool) : KeepsGap (extractMonthly shifts) := by
  intro t g hg
  have hmonthly := keepsGap_extract (p := Closed.monthlyDays)
    (fun _ h => some (dayNumbers (h.part 1))) (by decide) (fun _ _ _ _ => rfl) t g hg
  have hbare := keepsGap_extract (p := Closed.bareDays)
    (fun _ h => some (dayNumbers (h.part 1))) (by decide) (fun _ _ _ _ => rfl)
    (Closed.monthlyDays.extract (fun _ h => some (dayNumbers (h.part 1))) t).2 g hg
  simp only [extractMonthly, hmonthly, hbare]

/-- A weekday may end in front of a gap as at the end of the text. -/
theorem standsAlone_extend (hg : Text.isGap g = true) (before : Option Char) (h : Hit) :
    standsAlone before (h.extend [g]) = standsAlone before h := by
  have hrest : (h.extend [g]).rest.head?.all mayFollowWeekday =
      h.rest.head?.all mayFollowWeekday := by
    show (h.rest ++ [g]).head?.all mayFollowWeekday = _
    cases h.rest with
    | nil => rcases Text.eq_of_isGap hg with rfl | rfl <;> rfl
    | cons c r => rfl
  rw [standsAlone, standsAlone, hrest]
  rfl

theorem keepsGap_readDays {passes : List DayPass} (hpasses : ∀ pass ∈ passes, KeepsGap pass) :
    KeepsGap (readDays passes) := by
  intro t g hg
  induction passes generalizing t with
  | nil => rfl
  | cons pass passes ih =>
    have hpass := hpasses pass List.mem_cons_self t g hg
    have hrest := ih (fun q hq => hpasses q (List.mem_cons_of_mem pass hq)) (pass t).2
    simp only [readDays, hpass, hrest]

theorem keepsGap_extractDays : KeepsGap extractDays := by
  have hpasses : ∀ pass ∈ dayPasses, KeepsGap pass := by
    simp only [dayPasses, List.forall_mem_cons]
    refine ⟨?_, ?_, ?_, ?_, ?_, ?_, List.forall_mem_nil _⟩
    · exact keepsGap_extract (p := Wording.exceptHolidays) _ (by decide) fun _ _ _ _ => rfl
    · exact keepsGap_extract (p := Wording.onlySundaysAndHolidays) _ (by decide) fun _ _ _ _ => rfl
    · exact keepsGap_extract (p := Wording.dayGroup) _ (by decide) fun _ _ _ _ => rfl
    · exact keepsGap_extract (p := Wording.holiday) _ (by decide) fun _ _ _ _ => rfl
    · refine keepsGap_extract (p := Wording.weekdayRange) _ (by decide) fun g before h hg => ?_
      rw [standsAlone_extend hg]
      rfl
    · refine keepsGap_extract (p := Wording.oneWeekday) _ (by decide) fun g before h hg => ?_
      rw [standsAlone_extend hg]
      rfl
  intro t g hg
  have hread := keepsGap_readDays hpasses t g hg
  simp only [extractDays, hread]

namespace Clause

/-! ## The statement that there are no regular closed days -/

/-- The texts that say nothing but that there are no regular closed days. -/
def bareNever : List Text :=
  ["なし".toList, "無し".toList]

/-- The statements that there are no regular closed days within a text. -/
def neverWithin : Pattern :=
  anyWord ["年中無休", "無休"] |||
    (anyWord ["定休日", "休館日", "休業日", "休園日", "休み"] ++ opt (word "は") ++
      anyWord ["なし", "無し", "ありません"])

/-- Words between the start and the end of the text are all of the text. -/
theorem hits_wholeText (ht : t ∉ bareNever) {s r : Text} (hsr : s ++ r = t) :
    (atStart ++ anyWord ["なし", "無し"] ++ atEnd).hits s.getLast? r = [] := by
  rw [List.eq_nil_iff_forall_not_mem]
  intro h hh
  obtain ⟨g, hg, hh⟩ := List.mem_flatMap.1 hh
  obtain ⟨e, he, -⟩ := List.mem_map.1 hh
  obtain ⟨a, ha, hg⟩ := List.mem_flatMap.1 hg
  obtain ⟨k, hk, rfl⟩ := List.mem_map.1 hg
  have hrest : k.rest = [] := by
    by_contra hne
    simp [hits, Hit.andThen, hne] at he
  have hs : s = [] ∧ a = .nothing r := by
    cases s with
    | nil => simpa [hits] using ha
    | cons c s => simp [hits, List.getLast?_cons] at ha
  obtain ⟨rfl, rfl⟩ := hs
  have htext : k.taken ++ k.rest = t := by
    rw [← hsr]
    exact taken_append_rest _ _ _ hk
  rw [hrest, List.append_nil] at htext
  refine ht ?_
  rw [← htext]
  rcases List.mem_append.1 hk with hk | hk
  · rw [taken_of_mem_hits_word hk]
    decide
  · rw [taken_of_mem_hits_word hk]
    decide

theorem blankOut_never (ht : t ∉ bareNever) :
    Closed.never.blankOut t = neverWithin.blankOut t := by
  apply blankOut_congr
  intro s r hsr
  have hhits : Closed.never.hits s.getLast? r = neverWithin.hits s.getLast? r ++ [] := by
    rw [← hits_wholeText ht hsr]
    rfl
  rw [first?, first?, hhits, List.append_nil]

theorem blankOut_never_append_gap (hg : Text.isGap g = true) (ht : t ∉ bareNever) :
    Closed.never.blankOut (t ++ [g]) = Closed.never.blankOut t ++ [g] := by
  have htg : t ++ [g] ∉ bareNever := by
    intro hmem
    have hlast : ∀ u ∈ bareNever, u.getLast?.any Text.isGap = false := by decide
    have := hlast _ hmem
    rw [List.getLast?_concat, Option.any_some, hg] at this
    exact Bool.false_ne_true this.symm
  rw [blankOut_never ht, blankOut_never htg, blankOut_append_gap (by decide) hg]

/-- The gap stays behind what is left of the main clause, unless the clause says nothing but that
there are no regular closed days. Then the gap hides the statement. -/
theorem withoutRemarks_append_gap (hg : Text.isGap g = true) (t : Text) :
    withoutRemarks (t ++ [g]) = withoutRemarks t ++ [g] ∨
      withoutRemarks t = [' '] ∧ ∃ u ∈ bareNever, withoutRemarks (t ++ [g]) = u ++ [g] := by
  have hshift := blankOut_append_gap (p := Closed.shift) (by decide) hg
  have hopen := blankOut_append_gap (p := Closed.openOnHolidays) (by decide) hg
  have hafter := blankOut_append_gap (p := Closed.dayAfterHoliday) (by decide) hg
  have hirregular := blankOut_append_gap (p := Closed.irregular) (by decide) hg
  have hinquiry := blankOut_append_gap (p := Wording.inquiry) (by decide) hg
  simp only [withoutRemarks, List.foldl_cons, List.foldl_nil, hshift, hopen, hafter]
  generalize Closed.dayAfterHoliday.blankOut
    (Closed.openOnHolidays.blankOut (Closed.shift.blankOut t)) = u
  by_cases hu : u ∈ bareNever
  · have hbare : ∀ v ∈ bareNever, Wording.inquiry.blankOut (Closed.irregular.blankOut
        (Closed.never.blankOut v)) = [' '] := by decide +kernel
    have hhidden : ∀ v ∈ bareNever, Wording.inquiry.blankOut
        (Closed.irregular.blankOut (Closed.never.blankOut (v ++ [g]))) = v ++ [g] := by
      rcases Text.eq_of_isGap hg with rfl | rfl
      · decide +kernel
      · decide +kernel
    exact .inr ⟨hbare u hu, u, hu, hhidden u hu⟩
  · rw [blankOut_never_append_gap hg hu, hirregular, hinquiry]
    exact .inl rfl

/-! ## The rules of the main clause -/

/-- The recurring rules of what is left of the main clause without its dates. -/
def recurringRules (shifts exceptHolidays : Bool) (t : Text) : List ClosureRule :=
  let (ordinals, rest) := extractOrdinals shifts (Closed.label.blankOut t)
  let (monthly, rest) := extractMonthly shifts rest
  let weekly := (extractDays rest).1.bind fun s => weeklyRule? s shifts exceptHolidays
  weekly.toList ++ ordinals ++ monthly.toList

theorem mem_recurringRules {shifts exceptHolidays : Bool} {r : ClosureRule} :
    r ∈ recurringRules shifts exceptHolidays t ↔
      let ordinals := extractOrdinals shifts (Closed.label.blankOut t)
      let monthly := extractMonthly shifts ordinals.2
      (∃ s, (extractDays monthly.2).1 = some s ∧ r ∈ weeklyRule? s shifts exceptHolidays) ∨
        r ∈ ordinals.1 ∨ r ∈ monthly.1 := by
  rw [recurringRules, List.mem_append, List.mem_append, Option.mem_toList, Option.mem_toList,
    or_assoc, Option.bind_eq_some_iff]
  rfl

/-- The rules of what is left of the main clause. -/
def rulesFrom (shifts exceptHolidays : Bool) (t : Text) : List ClosureRule :=
  recurringRules shifts exceptHolidays (extractDates t).2 ++ (extractDates t).1.toList

theorem rules_readMain (t : Text) :
    (readMain t).rules = rulesFrom (Closed.shift.occursIn t)
      (Closed.openOnHolidays.occursIn (Closed.shift.blankOut t)) (withoutRemarks t) := by
  rw [readMain, rulesFrom, recurringRules]

theorem rulesFrom_append_gap (hg : Text.isGap g = true) (shifts exceptHolidays : Bool) (t : Text) :
    rulesFrom shifts exceptHolidays (t ++ [g]) = rulesFrom shifts exceptHolidays t := by
  have hdates := keepsGap_extractDates
  have hordinals := keepsGap_extractOrdinals shifts
  have hmonthly := keepsGap_extractMonthly shifts
  have hdays := keepsGap_extractDays
  have hlabel := blankOut_append_gap (p := Closed.label) (by decide) hg
  simp only [rulesFrom, recurringRules, hdates _ _ hg, hlabel, hordinals _ _ hg, hmonthly _ _ hg,
    hdays _ _ hg]

/-- A gap at the end of the main clause changes no rule. -/
theorem rules_readMain_append_gap (hg : Text.isGap g = true) (t : Text) :
    (readMain (t ++ [g])).rules = (readMain t).rules := by
  have hshift := occursIn_append_gap (p := Closed.shift) (by decide) hg
  have hopen := occursIn_append_gap (p := Closed.openOnHolidays) (by decide) hg
  have hblank := blankOut_append_gap (p := Closed.shift) (by decide) hg
  rw [rules_readMain, rules_readMain, hshift, hblank, hopen]
  rcases withoutRemarks_append_gap hg t with hleft | ⟨hleft, u, hu, hhidden⟩
  · rw [hleft, rulesFrom_append_gap hg]
  · have hnone : ∀ shifts exceptHolidays : Bool, ∀ v ∈ [' '] :: bareNever,
        rulesFrom shifts exceptHolidays v = [] := by decide +kernel
    rw [hleft, hhidden, rulesFrom_append_gap hg, hnone _ _ u (List.mem_cons_of_mem _ hu),
      hnone _ _ _ List.mem_cons_self]

end Clause

/-! ## Clauses -/

namespace ClosedDays

/-- What is read of a text is read of its normal form, which may be empty. -/
theorem ofText_some (t : Text) :
    let normal := Text.normalize t
    ofText (some t) =
      { raw := some t
        normalized := some normal
        rules := (readClauses normal).flatMap Clause.rules
        noRegular := Closed.never.occursIn normal
        irregular := Closed.irregular.occursIn normal
        requiresInquiry := Wording.inquiry.occursIn normal
        notes := (readClauses normal).flatMap Clause.notes } := by
  rw [ofText, readNormal]
  cases Text.normalize t with
  | nil =>
    have hrules : (readClauses []).flatMap Clause.rules = [] := by decide +kernel
    have hnotes : (readClauses []).flatMap Clause.notes = [] := by decide +kernel
    simp only [hrules, hnotes]
    rfl
  | cons c r => rfl

theorem rules_ofText (t : Text) :
    (ofText (some t)).rules = (readClauses (Text.normalize t)).flatMap Clause.rules := by
  rw [ofText_some]

theorem isWordPart_remarkMark : Text.isWordPart '※' = true := by
  decide

theorem not_remarkMark (ht : '※' ∉ t) : ∀ c ∈ t, (c == '※') = false := by
  intro c hc
  rw [beq_eq_false_iff_ne]
  rintro rfl
  exact ht hc

/-- Without a remark the main clause is the whole text. -/
theorem rules_ofText_of_no_remark (ht : '※' ∉ t) :
    (ofText (some t)).rules = (Clause.readMain (Text.normalize t)).rules := by
  have hmain : '※' ∉ Text.normalize t := Text.not_mem_normalize (by decide) ht
  rw [rules_ofText, readClauses, Text.cut_of_no_separator (not_remarkMark hmain)]
  exact List.append_nil _

theorem readClauses_append_remark (ht : '※' ∉ t) (r : Text) :
    readClauses (t ++ '※' :: r) =
      Clause.readMain t :: (Text.cut (· == '※') r).map Clause.readRemark := by
  rw [readClauses, Text.cut_append_cons rfl, Text.cut_of_no_separator (not_remarkMark ht)]
  rfl

/-- The rules of remarks alone: the main clause in front of them is empty. -/
theorem rules_readClauses_remark (r : Text) : (readClauses ('※' :: r)).flatMap Clause.rules =
    ((Text.cut (· == '※') r).map Clause.readRemark).flatMap Clause.rules := by
  have hempty : (Clause.readMain []).rules = [] := by decide +kernel
  have hclauses := readClauses_append_remark (t := []) List.not_mem_nil r
  rw [List.nil_append] at hclauses
  rw [hclauses, List.flatMap_cons, hempty, List.nil_append]

/-- The rules of a main clause, perhaps a gap, and remarks behind it. -/
theorem rules_readClauses_append (ht : '※' ∉ t) {gap : Option Char}
    (hgap : ∀ g ∈ gap, Text.isGap g = true) (r : Text) :
    (readClauses (t ++ (gap.toList ++ '※' :: r))).flatMap Clause.rules =
      (Clause.readMain t).rules ++ (readClauses ('※' :: r)).flatMap Clause.rules := by
  rw [rules_readClauses_remark]
  cases gap with
  | none =>
    show (readClauses (t ++ '※' :: r)).flatMap Clause.rules = _
    rw [readClauses_append_remark ht, List.flatMap_cons]
  | some g =>
    have hg : Text.isGap g = true := hgap g rfl
    have hmain : '※' ∉ t ++ [g] := by
      rw [List.mem_append, List.mem_singleton, not_or]
      refine ⟨ht, ?_⟩
      rintro rfl
      exact absurd hg (by decide)
    have hassoc : t ++ ((some g).toList ++ '※' :: r) = (t ++ [g]) ++ '※' :: r := by
      rw [List.append_assoc]
      rfl
    rw [hassoc, readClauses_append_remark hmain, List.flatMap_cons,
      Clause.rules_readMain_append_gap hg]

/-- A date that a text closes is closed by every text with the same rules and more. -/
theorem under_isClosedOn_mono {c d : ClosedDays} (hrules : c.rules ⊆ d.rules)
    {holidays : HolidayCalendar} {date : Date}
    (hclosed : (c.isClosedOn date).under holidays = .yes) :
    (d.isClosedOn date).under holidays = .yes := by
  rw [under_isClosedOn_eq_yes] at hclosed ⊢
  obtain ⟨r, hr, hcloses⟩ := hclosed
  exact ⟨r, hrules hr, hcloses⟩

/-- **Remarks only add.** The rules of a text with remarks are those of the text in front of them,
followed by those of the remarks, so a date that the text in front closes stays closed. -/
theorem rules_append_remark (ht : '※' ∉ t) (b : Text) :
    (ofText (some (t ++ '※' :: b))).rules =
        (ofText (some t)).rules ++ (ofText (some ('※' :: b))).rules ∧
      ∀ (holidays : HolidayCalendar) (date : Date),
        ((ofText (some t)).isClosedOn date).under holidays = .yes →
          ((ofText (some (t ++ '※' :: b))).isClosedOn date).under holidays = .yes := by
  have hrules : (ofText (some (t ++ '※' :: b))).rules =
      (ofText (some t)).rules ++ (ofText (some ('※' :: b))).rules := by
    obtain ⟨gap, hgap, hnormal⟩ := Text.normalize_append_cons isWordPart_remarkMark rfl t b
    obtain ⟨r, hr⟩ : ∃ r, Text.normalize ('※' :: b) = '※' :: r :=
      ⟨_, Text.normalize_word_append (List.cons_ne_nil '※' [])
        (fun c hc => by rw [List.mem_singleton.1 hc, isWordPart_remarkMark]) b⟩
    have hmain : '※' ∉ Text.normalize t := Text.not_mem_normalize (by decide) ht
    rw [rules_ofText, hnormal, hr, rules_readClauses_append hmain hgap,
      rules_ofText_of_no_remark ht, rules_ofText, hr]
  refine ⟨hrules, fun holidays date hclosed => under_isClosedOn_mono ?_ hclosed⟩
  rw [hrules]
  exact List.subset_append_left _ _

/-- Mondays, and remarks on lines of their own. -/
theorem rules_mondays_append_remark :
    '※' ∉ "月曜日\n".toList ∧
      ((ofText (some "月曜日\n".toList)).isClosedOn ⟨2026, 1, 12, by decide⟩).under
        (fun _ => false) = .yes ∧
      (ofText (some ("月曜日\n".toList ++ '※' :: "8/15は休館\n※7/1".toList))).rules =
        (ofText (some "月曜日\n".toList)).rules ++
          (ofText (some ('※' :: "8/15は休館\n※7/1".toList))).rules ∧
      ((ofText (some ("月曜日\n".toList ++ '※' :: "8/15は休館\n※7/1".toList))).isClosedOn
        ⟨2026, 1, 12, by decide⟩).under (fun _ => false) = .yes := by
  have hremark : '※' ∉ "月曜日\n".toList := by decide
  have hclosed : ((ofText (some "月曜日\n".toList)).isClosedOn ⟨2026, 1, 12, by decide⟩).under
      (fun _ => false) = .yes := by decide +kernel
  have hadds := rules_append_remark hremark "8/15は休館\n※7/1".toList
  exact ⟨hremark, hclosed, hadds.1, hadds.2 _ _ hclosed⟩

end ClosedDays

end OpeningHours
