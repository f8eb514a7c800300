import OpeningHours.Proofs.ClosedDays.PhraseText
import OpeningHours.Proofs.ClosedDays.YearEnd
import OpeningHours.Proofs.Scope.IdleDays

/-!
# Nothing else vanishes

A text about closed days passes through many recognizers, and each blanks out what it has read.
Several of them look at the numbers only afterwards. If in the end there is no rule, no note and no
flag, what has become of the text? It consists of fillers, of words that announce closed days
without saying which, and of words that are read and come to nothing by themselves: adjustments for
holidays, dates that exist in no year, days that no month has. Whatever else stands in a text leaves
a trace.

One more clause leaves no trace. `なし` in front of a remark is blanked out of the main clause, where
it is all of the clause, but the flag looks for it in the whole text, where it is not.

* `IdleWord`, `UnheardWord`: the words of a remark and of the main clause that leave no trace;
* `ConsistsOf.of_extractDates`, `ConsistsOf.of_extractMonthly`: the passes for dates and for days of
  every month take away such words only, if they make no rule;
* `extractOrdinals_eq`: the pass for ordinal weekdays leaves the text as it is, if it makes no rule;
* `withoutRemarks_eq`: without a note and a flag, only adjustments for holidays leave the clause;
* **`ClosedDays.consistsOf_of_saysNothing`**: a text that yields nothing consists of such words.
-/

namespace OpeningHours

open Pattern Wording

variable {isWord : Text → Prop} {main t u : Text} {h : Hit} {shifts : Bool}

/-! ## Words that leave no trace -/

/-- The words of a clause that say no more than that the facility is closed, or name days of the
year that do not exist. -/
inductive IdleWord : Text → Prop
  | closureWord {h : Hit} (hh : Closed.closureWord.Spells h) : IdleWord h.taken
  | missingDate {h : Hit} (hh : Closed.oneDate.Spells h) (hnone : h.oneDate? = none) :
    IdleWord h.taken
  | missingSpan {h : Hit} (hh : Closed.dateSpan.Spells h) (hnone : h.dateSpan? = none) :
    IdleWord h.taken

/-- The words of the main clause that make no rule, no note and no flag by themselves. -/
inductive UnheardWord (main : Text) : Text → Prop
  | idle {w : Text} (hw : IdleWord w) : UnheardWord main w
  | label {h : Hit} (hh : Closed.label.Spells h) : UnheardWord main h.taken
  | shift {h : Hit} (hh : Closed.shift.Spells h) : UnheardWord main h.taken
  | openOnHolidays {h : Hit} (hh : Closed.openOnHolidays.Spells h) : UnheardWord main h.taken
  | missingDays {h : Hit} (hh : Closed.monthlyDays.Spells h ∨ Closed.bareDays.Spells h)
    (hnone : dayNumbers (h.part 1) = []) : UnheardWord main h.taken
  | days {w : Text} (hw : IdleDayWord (Wording.exceptHolidays.occursIn main = true) w) :
    UnheardWord main w

/-! ## Days of the year -/

theorem datedRule?_eq_none {days : List MonthDay} {spans : List DateSpan}
    (h : datedRule? days spans = none) : days = [] ∧ spans = [] := by
  rw [datedRule?] at h
  split at h
  · next hempty =>
    rw [Bool.and_eq_true, List.isEmpty_iff, List.isEmpty_iff] at hempty
    exact hempty
  · exact absurd h (by simp)

/-- A clause without a rule for days of the year names no such day, nor the break around the new
year. -/
theorem named_eq_nil (hrule : (extractDates t).1 = none) :
    namedSpans t = [] ∧ namedDays t = [] ∧ Closed.yearEnd.occursIn (afterDates t) = false := by
  obtain ⟨hdays, hspans⟩ : namedDays t = [] ∧
      (if Closed.yearEnd.occursIn (afterDates t) && (namedSpans t).isEmpty && (namedDays t).isEmpty
        then [DateSpan.yearEnd] else namedSpans t) = [] := datedRule?_eq_none hrule
  split at hspans
  · exact absurd hspans (by simp)
  · next hbreak =>
    rw [hspans, hdays] at hbreak
    refine ⟨hspans, hdays, ?_⟩
    simpa using hbreak

/-- Where no date exists, the pass for dates takes away missing dates only. -/
theorem ConsistsOf.of_extractDates (hrule : (extractDates t).1 = none)
    (hword : ∀ w, IdleWord w → isWord w) (hleft : ConsistsOf isWord (extractDates t).2) :
    ConsistsOf isWord t := by
  obtain ⟨hspans, hdays, hbreak⟩ := named_eq_nil hrule
  have hafter : (extractDates t).2 = afterDates t := blankOut_of_occursIn_eq_false hbreak
  rw [hafter] at hleft
  have hnone {α : Type} {reads : List (Option α)} (hnil : reads.filterMap id = []) :
      ∀ a ∈ reads, a = none := fun a ha => List.filterMap_eq_nil_iff.1 hnil a ha
  have hmiddle : ConsistsOf isWord (afterSpans t) := by
    refine .of_extract (by decide) (fun b h a hh hread hmem => ?_) hleft
    refine hword h.taken (.missingDate hh ?_)
    rw [Option.some.inj hread]
    exact hnone hdays a hmem
  refine .of_extract (by decide) (fun b h a hh hread hmem => ?_) hmiddle
  refine hword h.taken (.missingSpan hh ?_)
  rw [Option.some.inj hread]
  exact hnone hspans a hmem

/-! ## Ordinal weekdays -/

/-- An ordinal weekday keeps a list that starts with an ordinal, and a weekday. -/
theorem parts_ordinalWeekday {before : Option Char}
    (hh : h ∈ Closed.ordinalWeekday.hits before t) :
    ∃ c cs k, h.parts = [(2, [k]), (1, c :: cs)] ∧ "12345一二三四五".toList.contains c = true ∧
      Weekday.isKanji k = true := by
  obtain ⟨front₃, hfront₃, ending, hending, rfl⟩ := mem_hits_seq.1 hh
  obtain ⟨front₂, hfront₂, kanji, hkanji, rfl⟩ := mem_hits_seq.1 hfront₃
  obtain ⟨front₁, hfront₁, gap, hgap, rfl⟩ := mem_hits_seq.1 hfront₂
  obtain ⟨start, hstart, list, hlist, rfl⟩ := mem_hits_seq.1 hfront₁
  obtain ⟨k, hk, rfl⟩ := mem_hits_keep.1 hkanji
  obtain ⟨d, r, -, hd, rfl⟩ := mem_hits_one.1 hk
  obtain ⟨numbers, hnumbers, rfl⟩ := mem_hits_keep.1 hlist
  have hkept : numbers.parts = [] := parts_eq_nil (by decide) hnumbers
  obtain ⟨first, hfirst, later, -, rfl⟩ := mem_hits_seq.1 hnumbers
  obtain ⟨c, r, -, hc, rfl⟩ := mem_hits_one.1 hfirst
  refine ⟨c, later.taken, d, ?_, hc, hd⟩
  have hendingParts : ending.parts = [] := parts_eq_nil (by decide) hending
  have hgapParts : gap.parts = [] := parts_eq_nil (by decide) hgap
  have hstartParts : start.parts = [] := parts_eq_nil (by decide) hstart
  simp only [Hit.andThen] at hkept ⊢
  rw [hendingParts, hgapParts, hstartParts, hkept]
  rfl

/-- **Every ordinal weekday makes a rule.** -/
theorem isSome_ordinalRule? {before : Option Char} (shifts : Bool)
    (hh : h ∈ Closed.ordinalWeekday.hits before t) : (h.ordinalRule? shifts).isSome = true := by
  obtain ⟨c, cs, k, hparts, hc, hk⟩ := parts_ordinalWeekday hh
  have hlist : h.part 1 = c :: cs := by
    rw [Hit.part, Hit.part?, hparts]
    rfl
  have hweekday : h.part 2 = [k] := by
    rw [Hit.part, Hit.part?, hparts]
    rfl
  have hnumber : (numeralUpTo? 5 [c]).isSome = true := by
    have hall : "12345一二三四五".toList.all (fun d => (numeralUpTo? 5 [d]).isSome) = true := by
      decide +kernel
    exact List.all_eq_true.1 hall c (List.contains_iff_mem.1 hc)
  obtain ⟨n, hn⟩ := Option.isSome_iff_exists.1 hnumber
  have hordinals : (ordinalNumbers (c :: cs)).isEmpty = false := by
    rw [List.isEmpty_eq_false_iff, ordinalNumbers, Ne, ascending_eq_nil, List.filterMap_cons, hn]
    exact List.cons_ne_nil _ _
  rw [Hit.ordinalRule?, hlist, hweekday, hordinals]
  rw [Weekday.isKanji] at hk
  simpa using hk

/-- Where no rule is made, the pass for ordinal weekdays leaves the text as it is. -/
theorem extractOrdinals_eq (hrules : (extractOrdinals shifts t).1 = []) :
    (extractOrdinals shifts t).2 = t := by
  apply extract_snd_of_fst_eq_nil
  rw [List.eq_nil_iff_forall_not_mem]
  intro read hread
  have hnone : read = none := List.filterMap_eq_nil_iff.1 hrules read hread
  obtain ⟨b, h, hscan, hread⟩ := exists_hit_of_mem_extract hread
  have hsome := isSome_ordinalRule? shifts (mem_hits_of_mem_scanFrom hscan).2
  rw [Option.some.inj hread, hnone] at hsome
  exact Bool.false_ne_true hsome

/-! ## Days of every month -/

/-- The lists of days in the hits of a pattern, and the text without them. -/
def extractDayLists (p : Pattern) (t : Text) : List (List Nat) × Text :=
  p.extract (fun _ h => some (dayNumbers (h.part 1))) t

/-- The days of a month are read in two passes. -/
theorem extractMonthly_eq (shifts : Bool) (t : Text) :
    let monthly := extractDayLists Closed.monthlyDays t
    let bare := extractDayLists Closed.bareDays monthly.2
    let days := ascending (monthly.1.flatten ++ bare.1.flatten)
    extractMonthly shifts t =
      (if days.isEmpty then none else some (.monthly days shifts), bare.2) := by
  rw [extractMonthly]
  rfl

/-- Lists of days none of which is a day of a month are missing days. -/
theorem ConsistsOf.of_extractDayLists {p : Pattern} (hp : p.isPlain = true)
    (hempty : (extractDayLists p t).1.flatten = [])
    (hword : ∀ h, p.Spells h → dayNumbers (h.part 1) = [] → isWord h.taken)
    (hleft : ConsistsOf isWord (extractDayLists p t).2) : ConsistsOf isWord t := by
  refine .of_extract hp (fun b h days hh hread hmem => hword h hh ?_) hleft
  rw [Option.some.inj hread]
  exact List.flatten_eq_nil_iff.1 hempty days hmem

/-- Where no rule is made, the passes for days of every month take away missing days only. -/
theorem ConsistsOf.of_extractMonthly (hrule : (extractMonthly shifts t).1 = none)
    (hword : ∀ h, Closed.monthlyDays.Spells h ∨ Closed.bareDays.Spells h →
      dayNumbers (h.part 1) = [] → isWord h.taken)
    (hleft : ConsistsOf isWord (extractMonthly shifts t).2) : ConsistsOf isWord t := by
  rw [extractMonthly_eq] at hrule hleft
  obtain ⟨hmonthly, hbare⟩ : (extractDayLists Closed.monthlyDays t).1.flatten = [] ∧
      (extractDayLists Closed.bareDays (extractDayLists Closed.monthlyDays t).2).1.flatten = [] := by
    dsimp only at hrule
    split at hrule
    · next hnil =>
      rw [List.isEmpty_iff, ascending_eq_nil] at hnil
      exact List.append_eq_nil_iff.1 hnil
    · exact absurd hrule (by simp)
  have hmiddle : ConsistsOf isWord (extractDayLists Closed.monthlyDays t).2 :=
    .of_extractDayLists (by decide) hbare (fun h hh => hword h (.inr hh)) hleft
  exact .of_extractDayLists (by decide) hmonthly (fun h hh => hword h (.inl hh)) hmiddle

/-! ## What the passes leave holds no new words -/

theorem thinned_extractDates (t : Text) : Thinned t (extractDates t).2 :=
  ((thinned_extract _ _ t).trans (thinned_extract _ _ _)).trans (thinned_blankOut _ _)

theorem thinned_extractMonthly (shifts : Bool) (t : Text) :
    Thinned t (extractMonthly shifts t).2 := by
  have hmonthly : Thinned t (extractDayLists Closed.monthlyDays t).2 := thinned_extract _ _ t
  rw [extractMonthly_eq]
  exact hmonthly.trans (thinned_extract Closed.bareDays _ _)

namespace Clause

/-! ## Remarks -/

theorem consistsOf_leftover (hnote : leftover t = []) (hword : ∀ w, IdleWord w → isWord w) :
    ConsistsOf isWord t := by
  have hnone : Text.remainder? (Closed.closureWord.blankOut t) = none :=
    Option.toList_eq_nil_iff.1 hnote
  exact .of_blankOut (by decide) (fun h hh => hword h.taken (.closureWord hh))
    (.of_remainder? hnone)

theorem rules_readRemark (t : Text) : (readRemark t).rules = (extractDates t).1.toList := by
  rw [readRemark]

theorem notes_readRemark (t : Text) : (readRemark t).notes = leftover (extractDates t).2 := by
  rw [readRemark]

/-- A remark without a rule and a note consists of idle words. -/
theorem consistsOf_readRemark (hrules : (readRemark t).rules = [])
    (hnotes : (readRemark t).notes = []) : ConsistsOf IdleWord t := by
  rw [rules_readRemark] at hrules
  rw [notes_readRemark] at hnotes
  have hleft : ConsistsOf IdleWord (extractDates t).2 := consistsOf_leftover hnotes fun w hw => hw
  exact .of_extractDates (Option.toList_eq_nil_iff.1 hrules) (fun w hw => hw) hleft

/-! ## The main clause -/

/-- What is left of the main clause without its adjustments for holidays. -/
def withoutAdjustments (t : Text) : Text :=
  Closed.openOnHolidays.blankOut (Closed.shift.blankOut t)

theorem thinned_withoutAdjustments (t : Text) : Thinned t (withoutAdjustments t) :=
  (thinned_blankOut _ t).trans (thinned_blankOut _ _)

/-- The words for no regular closed days do not come up where adjustments are blanked out. -/
theorem never_withoutAdjustments (hmain : main ∉ bareNever) (hstretch : main <:+: t)
    (hnever : Closed.never.occursIn t = false) :
    Closed.never.blankOut (withoutAdjustments main) = withoutAdjustments main := by
  have hbare : withoutAdjustments main ∉ bareNever := by
    intro hmem
    have hspace : ∀ w ∈ bareNever, ' ' ∉ w := by decide
    have hopen : withoutAdjustments main = Closed.shift.blankOut main :=
      extract_snd_of_not_mem (hspace _ hmem)
    rw [hopen] at hmem
    have hshift : Closed.shift.blankOut main = main := extract_snd_of_not_mem (hspace _ hmem)
    rw [hshift] at hmem
    exact hmain hmem
  have hwithin : neverWithin.occursIn t = false := by
    rw [← Bool.not_eq_true] at hnever ⊢
    intro hoccurs
    obtain ⟨s, r, hsr, h, hh, hne⟩ := occursIn_iff.1 hoccurs
    exact hnever (occursIn_iff.2 ⟨s, r, hsr, h, List.mem_append_left _ hh, hne⟩)
  have hthin := (thinned_of_stretch hstretch).trans (thinned_withoutAdjustments main)
  rw [blankOut_never hbare]
  exact blankOut_of_occursIn_eq_false (hthin.occursIn_eq_false (by decide) (by decide) hwithin)

/-- Without a note and a flag, only adjustments for holidays leave the main clause. -/
theorem withoutRemarks_eq (hmain : main ∉ bareNever) (hstretch : main <:+: t)
    (hnote : dayAfterHolidayNote main = []) (hnever : Closed.never.occursIn t = false)
    (hirregular : Closed.irregular.occursIn t = false)
    (hinquiry : Wording.inquiry.occursIn t = false) :
    withoutRemarks main = withoutAdjustments main := by
  have hthin := (thinned_of_stretch hstretch).trans (thinned_withoutAdjustments main)
  have hfind : Closed.dayAfterHoliday.find? (withoutAdjustments main) = none :=
    Option.map_eq_none_iff.1 (Option.toList_eq_nil_iff.1 hnote)
  have hafter : Closed.dayAfterHoliday.blankOut (withoutAdjustments main) =
      withoutAdjustments main := by
    apply blankOut_of_occursIn_eq_false
    rw [occursIn, hfind]
    rfl
  have hirregular' : Closed.irregular.blankOut (withoutAdjustments main) =
      withoutAdjustments main :=
    blankOut_of_occursIn_eq_false (hthin.occursIn_eq_false (by decide) (by decide) hirregular)
  have hinquiry' : Wording.inquiry.blankOut (withoutAdjustments main) = withoutAdjustments main :=
    blankOut_of_occursIn_eq_false (hthin.occursIn_eq_false (by decide) (by decide) hinquiry)
  show Wording.inquiry.blankOut (Closed.irregular.blankOut (Closed.never.blankOut
    (Closed.dayAfterHoliday.blankOut (withoutAdjustments main)))) = withoutAdjustments main
  rw [hafter, never_withoutAdjustments hmain hstretch hnever, hirregular', hinquiry']

/-- What is left of the dateless main clause behind its recurring rules. -/
def recurringLeft (shifts : Bool) (t : Text) : Text :=
  (extractDays (extractMonthly shifts (extractOrdinals shifts (Closed.label.blankOut t)).2).2).2

theorem recurringRules_eq_nil {exceptHolidays : Bool}
    (h : recurringRules shifts exceptHolidays t = []) :
    ((extractDays (extractMonthly shifts (extractOrdinals shifts (Closed.label.blankOut t)).2).2).1.bind
        fun s => weeklyRule? s shifts exceptHolidays) = none ∧
      (extractOrdinals shifts (Closed.label.blankOut t)).1 = [] ∧
      (extractMonthly shifts (extractOrdinals shifts (Closed.label.blankOut t)).2).1 = none := by
  obtain ⟨hfirst, hmonthly⟩ := List.append_eq_nil_iff.1 h
  obtain ⟨hweekly, hordinals⟩ := List.append_eq_nil_iff.1 hfirst
  exact ⟨Option.toList_eq_nil_iff.1 hweekly, hordinals, Option.toList_eq_nil_iff.1 hmonthly⟩

/-- A dateless main clause without a recurring rule and a note consists of unheard words. -/
theorem consistsOf_of_recurringRules {exceptHolidays : Bool} (hthin : Thinned main t)
    (hrules : recurringRules shifts exceptHolidays t = [])
    (hnote : leftover (recurringLeft shifts t) = []) : ConsistsOf (UnheardWord main) t := by
  obtain ⟨hweekly, hordinals, hmonthly⟩ := recurringRules_eq_nil hrules
  have hleft : (extractOrdinals shifts (Closed.label.blankOut t)).2 = Closed.label.blankOut t :=
    extractOrdinals_eq hordinals
  rw [recurringLeft, hleft] at hnote
  rw [hleft] at hweekly hmonthly
  have hthin' : Thinned main (extractMonthly shifts (Closed.label.blankOut t)).2 :=
    (hthin.trans (thinned_blankOut _ t)).trans (thinned_extractMonthly shifts _)
  have hmonthless :
      ConsistsOf (UnheardWord main) (extractMonthly shifts (Closed.label.blankOut t)).2 := by
    refine .of_extractDays hweekly ?_ (consistsOf_leftover hnote fun w hw => .idle hw)
    intro w hw
    refine .days (hw.mono fun hoccurs => ?_)
    exact hthin'.occursIn (by decide) (by decide) hoccurs
  have hlabelless : ConsistsOf (UnheardWord main) (Closed.label.blankOut t) :=
    .of_extractMonthly hmonthly (fun h hh hnone => .missingDays hh hnone) hmonthless
  exact .of_blankOut (by decide) (fun h hh => .label hh) hlabelless

theorem notes_readMain (t : Text) : (readMain t).notes = dayAfterHolidayNote t ++
    leftover (recurringLeft (Closed.shift.occursIn t) (extractDates (withoutRemarks t)).2) := by
  rw [readMain, recurringLeft]

/-- **A main clause without a rule, a note and a flag consists of unheard words.** -/
theorem consistsOf_readMain (hmain : main ∉ bareNever) (hstretch : main <:+: t)
    (hrules : (readMain main).rules = []) (hnotes : (readMain main).notes = [])
    (hnever : Closed.never.occursIn t = false) (hirregular : Closed.irregular.occursIn t = false)
    (hinquiry : Wording.inquiry.occursIn t = false) : ConsistsOf (UnheardWord main) main := by
  rw [notes_readMain] at hnotes
  obtain ⟨hnote, hleftover⟩ := List.append_eq_nil_iff.1 hnotes
  have hremarks := withoutRemarks_eq hmain hstretch hnote hnever hirregular hinquiry
  rw [hremarks] at hleftover
  rw [rules_readMain, hremarks] at hrules
  obtain ⟨hrecurring, hdated⟩ := List.append_eq_nil_iff.1 hrules
  have hthin : Thinned main (extractDates (withoutAdjustments main)).2 :=
    (thinned_withoutAdjustments main).trans (thinned_extractDates _)
  have hdateless : ConsistsOf (UnheardWord main) (extractDates (withoutAdjustments main)).2 :=
    consistsOf_of_recurringRules hthin hrecurring hleftover
  have hadjusted : ConsistsOf (UnheardWord main) (withoutAdjustments main) :=
    .of_extractDates (Option.toList_eq_nil_iff.1 hdated) (fun w hw => .idle hw) hdateless
  have hshiftless : ConsistsOf (UnheardWord main) (Closed.shift.blankOut main) :=
    .of_blankOut (by decide) (fun h hh => .openOnHolidays hh) hadjusted
  exact .of_blankOut (by decide) (fun h hh => .shift hh) hshiftless

end Clause

/-! ## The whole text -/

namespace ClosedDays

/-- The result holds no rule, no note and no flag. -/
structure SaysNothing (c : ClosedDays) : Prop where
  rules : c.rules = []
  notes : c.notes = []
  noRegular : c.noRegular = false
  irregular : c.irregular = false
  requiresInquiry : c.requiresInquiry = false

/-- A result that holds nothing but the text says nothing. -/
theorem SaysNothing.of_eq {c : ClosedDays} {raw normalized : Option Text}
    (h : c = { raw := raw, normalized := normalized }) : c.SaysNothing := by
  rw [h]
  exact ⟨rfl, rfl, rfl, rfl, rfl⟩

theorem infix_of_cut {s : Char} {remarks : List Text}
    (hcut : Text.cut (· == s) t = main :: remarks) : main <:+: t := by
  rw [← Text.intercalate_cut s t, hcut]
  cases remarks with
  | nil =>
    rw [List.intercalate_singleton]
  | cons r rs =>
    rw [List.intercalate_cons_cons, List.append_assoc]
    exact (List.prefix_append main _).isInfix

/-- **Nothing else vanishes.** If a text yields no rule, no note and no flag, its main clause
consists of fillers and unheard words or is `なし` alone, and each remark consists of fillers and idle
words. -/
theorem consistsOf_of_saysNothing {remarks : List Text}
    (hcut : Text.cut (· == '※') (Text.normalize t) = main :: remarks)
    (hnothing : (ofText (some t)).SaysNothing) :
    (main ∈ Clause.bareNever ∨ ConsistsOf (UnheardWord main) main) ∧
      ∀ r ∈ remarks, ConsistsOf IdleWord r := by
  obtain ⟨hrules, hnotes, hnever, hirregular, hinquiry⟩ := hnothing
  rw [ofText_some] at hrules hnotes hnever hirregular hinquiry
  dsimp only at hrules hnotes hnever hirregular hinquiry
  have hclauses : readClauses (Text.normalize t) =
      Clause.readMain main :: remarks.map Clause.readRemark := by
    rw [readClauses, hcut]
  rw [hclauses] at hrules hnotes
  have hrules := List.flatMap_eq_nil_iff.1 hrules
  have hnotes := List.flatMap_eq_nil_iff.1 hnotes
  constructor
  · refine or_iff_not_imp_left.2 fun hmain => ?_
    exact Clause.consistsOf_readMain hmain (infix_of_cut hcut)
      (hrules _ List.mem_cons_self) (hnotes _ List.mem_cons_self) hnever hirregular hinquiry
  · intro r hr
    have hmem : Clause.readRemark r ∈ Clause.readMain main :: remarks.map Clause.readRemark :=
      List.mem_cons_of_mem _ (List.mem_map_of_mem hr)
    exact Clause.consistsOf_readRemark (hrules _ hmem) (hnotes _ hmem)

/-- A main clause about a day that no month has. -/
def missingDayClause : Text :=
  "定休日:毎月32日(祝日は開館)".toList

/-- A remark about a date that no year has. -/
def missingDateRemark : Text :=
  "4/31は休館".toList

/-- The clause and the remark are read as nothing, and they consist of unheard words. -/
theorem consistsOf_missingDay :
    Text.cut (· == '※') (Text.normalize (missingDayClause ++ '※' :: missingDateRemark)) =
      [missingDayClause, missingDateRemark] ∧
    (ofText (some (missingDayClause ++ '※' :: missingDateRemark))).SaysNothing ∧
    ConsistsOf (UnheardWord missingDayClause) missingDayClause ∧
    ∀ r ∈ [missingDateRemark], ConsistsOf IdleWord r := by
  have hcut : Text.cut (· == '※') (Text.normalize (missingDayClause ++ '※' :: missingDateRemark)) =
      [missingDayClause, missingDateRemark] := by decide +kernel
  have hmain : missingDayClause ∉ Clause.bareNever := by decide
  have hread : ofText (some (missingDayClause ++ '※' :: missingDateRemark)) =
      { raw := some (missingDayClause ++ '※' :: missingDateRemark)
        normalized := some (missingDayClause ++ '※' :: missingDateRemark) } := by decide +kernel
  have hnothing := SaysNothing.of_eq hread
  obtain ⟨hclause, hremarks⟩ := consistsOf_of_saysNothing hcut hnothing
  exact ⟨hcut, hnothing, hclause.resolve_left hmain, hremarks⟩

/-- The words that announce closed days and say no more. -/
def IsAnnouncement (w : Text) : Prop :=
  ∃ h : Hit, (Closed.label.Spells h ∨ Closed.closureWord.Spells h) ∧ h.taken = w

/-- A text with a character that is in no filler and in no announcement is more than those. -/
theorem not_consistsOf_isAnnouncement {c : Char} (hc : c ∈ t) (htelling : Text.isTelling c = true)
    (hlabel : Closed.label.refuses c = true) (hclosure : Closed.closureWord.refuses c = true) :
    ¬ ConsistsOf IsAnnouncement t := by
  have hword : ∀ w, IsAnnouncement w → c ∉ w := by
    rintro w ⟨h, hh | hh, rfl⟩
    · exact hh.not_mem hlabel
    · exact hh.not_mem hclosure
  exact fun hconsists => hconsists.not_mem htelling hword hc

/-- An adjustment for holidays with no rule to adjust, and a date that no year has, yield nothing,
and they are more than announcements. -/
theorem unheardWords_vanish :
    ((ofText (some "祝日は開館".toList)).SaysNothing ∧
      ¬ ConsistsOf IsAnnouncement (Text.normalize "祝日は開館".toList)) ∧
    (ofText (some "2/30".toList)).SaysNothing ∧
      ¬ ConsistsOf IsAnnouncement (Text.normalize "2/30".toList) := by
  have hadjustment : ofText (some "祝日は開館".toList) =
      { raw := some "祝日は開館".toList, normalized := some "祝日は開館".toList } := by decide +kernel
  have hdate : ofText (some "2/30".toList) =
      { raw := some "2/30".toList, normalized := some "2/30".toList } := by decide +kernel
  refine ⟨⟨.of_eq hadjustment, ?_⟩, .of_eq hdate, ?_⟩
  · exact not_consistsOf_isAnnouncement (c := '祝') (by decide +kernel) (by decide) (by decide)
      (by decide)
  · exact not_consistsOf_isAnnouncement (c := '2') (by decide +kernel) (by decide) (by decide)
      (by decide)

end ClosedDays

end OpeningHours
