import Mathlib.Data.List.Basic
import OpeningHours.Proofs.ClosedDays.Conservation
import OpeningHours.Proofs.ClosedDays.WellFormed
import OpeningHours.Proofs.Scope.AttachedKanji

/-!
# Phrases about months and days

Many phrases about closed days hold a `月` or a `日` and name no weekday of every week: `毎月`, `翌日`,
`第2・第4月曜日`. A list of such phrases is read in many passes, and each leaves spaces behind. Still no
`月` is read as Monday and no `日` as Sunday.

Up to the ordinal weekdays the passes read each phrase by itself (`blankedWords?_phrases`). The two
passes for days of every month do not: they join the numbers of neighbouring phrases into one list.
But they take a number only together with the `日` behind it, and so leave every kanji attached.

* `TakesDay`, `takesDay_monthlyDays`: the preferred hits take the `日` behind a number;
* `TakesDay.leavesAttached`: such a pattern leaves kanji attached to their numbers;
* `nonWeeklyPhrases`, `phraseMarks`: the phrases, and what may stand between them;
* **`extractDays_withoutMonthly`**: what is left of a list of phrases is not about days;
* **`ClosedDays.kind_ne_weekly_of_listOf`**: so the list yields no weekly rule.
-/

namespace OpeningHours

open Pattern Wording

variable {p q : Pattern} {before : Option Char} {g h k : Hit} {t : Text}

/-! ## Numbers that take their day -/

/-- Behind the hit no `日` follows a digit: where the number of a day is the end of a hit, so is the
`日` behind it. -/
def Hit.TakesDay (h : Hit) : Prop :=
  h.rest.head? = some '日' → h.taken.getLast?.any Char.isDigit = false

/-- The preferred hits of the pattern take the `日` behind a number. -/
def TakesDay (p : Pattern) : Prop :=
  ∀ before t h, (p.hits before t).head? = some h → h.TakesDay

theorem Hit.TakesDay.andThen (hg : g.TakesDay) (hk : k.TakesDay)
    (hrest : k.taken ++ k.rest = g.rest) : (g.andThen k).TakesDay := by
  intro hday
  rw [Hit.taken_andThen, List.getLast?_append]
  cases hlast : k.taken.getLast? with
  | none =>
    rw [List.getLast?_eq_none_iff.1 hlast, List.nil_append] at hrest
    rw [Hit.rest_andThen, hrest] at hday
    exact hg hday
  | some c =>
    rw [Option.some_or, ← hlast]
    exact hk hday

theorem takesDay_opt_day (p : Pattern) : TakesDay (p ++ opt (word "日")) := by
  intro before t h hh
  obtain ⟨g, -, k, hk, rfl⟩ := exists_of_head?_hits_seq hh
  by_cases hday : g.rest.head? = some '日'
  · -- The `日` is there, so it is taken.
    obtain ⟨r, hr⟩ := List.head?_eq_some_iff.1 hday
    have hprefers : (opt (word "日")).Prefers ('日' :: r) _ := (prefers_word "日" r).opt
    rw [hr, hprefers] at hk
    obtain rfl := Option.some.inj hk
    intro _
    rw [Hit.taken_andThen, List.getLast?_append]
    rfl
  · intro hrest
    have hfails : (word "日").Fails g.rest := by
      apply fails_word
      cases hr : g.rest with
      | nil => rfl
      | cons c r =>
        have hc : ('日' == c) = false := beq_eq_false_iff_ne.2 fun h => hday (by rw [hr, h]; rfl)
        simp [List.isPrefixOf, hc]
    rw [hfails.opt] at hk
    obtain rfl := Option.some.inj hk
    exact absurd hrest hday

theorem TakesDay.keep (hp : TakesDay p) (slot : Slot) : TakesDay (.keep slot p) := by
  intro before t h hh
  rw [hits, List.head?_map, Option.map_eq_some_iff] at hh
  obtain ⟨g, hg, rfl⟩ := hh
  exact hp before t g hg

/-- What comes last takes the day, if it cannot be missing. -/
theorem TakesDay.seq (hq : TakesDay q) (hne : q.mayBeEmpty = false) (p : Pattern) :
    TakesDay (p ++ q) := by
  intro before t h hh
  obtain ⟨g, -, k, hk, rfl⟩ := exists_of_head?_hits_seq hh
  intro hday
  cases hlast : k.taken.getLast? with
  | none =>
    exact absurd (List.getLast?_eq_none_iff.1 hlast) (taken_ne_nil hne (List.mem_of_mem_head? hk))
  | some c =>
    have htakes := hq _ _ k hk hday
    rw [Hit.taken_andThen, List.getLast?_append, hlast, Option.some_or, ← hlast]
    exact htakes

theorem takesDay_nothing (t : Text) : (Hit.nothing t).TakesDay :=
  fun _ => rfl

theorem takesDay_hitsMany (hp : TakesDay p) (hne : p.mayBeEmpty = false) (n : Nat)
    (hh : (hitsMany p.hits n before t).head? = some h) : h.TakesDay := by
  induction n generalizing before t h with
  | zero =>
    obtain rfl := Option.some.inj hh
    exact takesDay_nothing t
  | succ n ih =>
    rw [hitsMany, filter_hits hne, List.head?_append, Option.or_eq_some_iff] at hh
    rcases hh with hh | ⟨-, hh⟩
    · obtain ⟨g, k, hg, hk, rfl⟩ := exists_of_head?_flatMap (fun g => hitsMany_ne_nil _ n _ _) hh
      refine (hp before t g hg).andThen (ih hk) ?_
      exact taken_append_rest_of_mem_hitsMany (fun b t h hb => taken_append_rest p b t hb) _ _ _
        (List.mem_of_mem_head? hk)
    · obtain rfl := Option.some.inj hh
      exact takesDay_nothing t

/-- A repetition takes the day each time, and so does what stands in front of it. -/
theorem TakesDay.seq_star (hp : TakesDay p) (hq : TakesDay q) (hne : q.mayBeEmpty = false) :
    TakesDay (p ++ q.star) := by
  intro before t h hh
  obtain ⟨g, k, hg, hk, rfl⟩ := exists_of_head?_flatMap (fun g => hitsMany_ne_nil _ _ _ _) hh
  exact (hp before t g hg).andThen (takesDay_hitsMany hq hne _ hk)
    (taken_append_rest q.star _ _ (List.mem_of_mem_head? hk))

theorem takesDay_monthlyDays : TakesDay Closed.monthlyDays :=
  (((takesDay_opt_day _).seq_star (takesDay_opt_day _) rfl).keep 1).seq rfl _

/-- A pattern leaves kanji attached if its hits take days and do not end with another character that
a kanji is attached to. -/
theorem TakesDay.leavesAttached (hp : TakesDay p) (hne : p.mayBeEmpty = false)
    (hend : (['毎', '翌', '末'].all fun b => !p.mayEnd b) = true) : LeavesAttached p := by
  intro before t h hfirst c hc
  have hmem : h ∈ p.hits before t := List.mem_of_find?_eq_some hfirst
  rw [first?_eq_head? hne] at hfirst
  rw [← Bool.not_eq_true]
  intro hattaches
  cases hlast : h.taken.getLast? with
  | none => simp [hlast, attachesTo_none] at hattaches
  | some b =>
    rw [hlast] at hattaches
    have hother : b ∉ ['毎', '翌', '末'] := fun hb => by
      simpa [mayEnd_of_mem_hits hmem hlast] using List.all_eq_true.1 hend b hb
    rcases attachesTo_some.1 hattaches with ⟨-, rfl⟩ | ⟨rfl, hdigit | rfl | rfl⟩
    · exact hother (by simp)
    · have htakes := hp before t h hfirst hc
      rw [hlast, Option.any_some, hdigit] at htakes
      exact absurd htakes (by simp)
    · exact hother (by simp)
    · exact hother (by simp)

theorem leavesAttached_monthlyDays : LeavesAttached Closed.monthlyDays :=
  takesDay_monthlyDays.leavesAttached (by decide) (by decide)

theorem leavesAttached_bareDays : LeavesAttached Closed.bareDays :=
  leavesAttached_of_mayEnd (by decide)

/-! ## The phrases -/

/-- Phrases about days none of which is a weekday of every week. -/
def nonWeeklyPhrases : List Text :=
  ["毎月", "月末", "毎月末日", "翌日", "毎月第3水曜日", "第2・第4月曜日", "毎月5日・20日", "15日",
    "12/29~1/3", "年末年始", "(祝日の場合は開館し、翌日休館)", "祝日の翌日", "不定休",
    "臨時休館日あり"].map String.toList

/-- What may stand between the phrases. -/
def phraseMarks : List Char :=
  ['、', ' ', '・', ',']

/-- The characters of the lists. -/
def nonWeeklyAlphabet : List Char :=
  phraseMarks ++ nonWeeklyPhrases.flatten

/-- What the passes in front of those for days of every month leave of the phrases. -/
def leftPhrases : List Text :=
  ["毎月", "月末", "毎月末日", "翌日", "毎月 ", " ", "毎月5日・20日", "15日", " ", " ", " ", " ", " ",
    " あり"].map String.toList

/-- The characters of what is left. -/
def leftAlphabet : List Char :=
  phraseMarks ++ leftPhrases.flatten

/-- The passes whose hits do not reach from one phrase to the next, in their order. -/
def phrasePasses : List Pattern :=
  [Closed.shift, Closed.openOnHolidays, Closed.dayAfterHoliday, Closed.irregular, Wording.inquiry,
    Closed.dateSpan, Closed.oneDate, Closed.yearEnd, Closed.label, Closed.ordinalWeekday]

theorem blankedWords?_phrases :
    blankedWords? phraseMarks phrasePasses nonWeeklyPhrases = some leftPhrases := by
  decide +kernel

/-! ## The text is in normal form -/

/-- The word is tidy and may stand beside a space. -/
def StandsBesideSpace (w : Text) : Prop :=
  w ≠ [] ∧ w.all Text.isWordPart = true ∧ w.head?.any Text.isListMark = false ∧
    w.getLast?.any Text.isListMark = false

instance decidableStandsBesideSpace (w : Text) : Decidable (StandsBesideSpace w) :=
  inferInstanceAs (Decidable (w ≠ [] ∧ w.all Text.isWordPart = true ∧
    w.head?.any Text.isListMark = false ∧ w.getLast?.any Text.isListMark = false))

theorem tidy_listOf {marks : List Char} {words : List Text}
    (hwords : ∀ w ∈ words, StandsBesideSpace w)
    (hmarks : (marks.all fun c => Text.isWordPart c || c == ' ') = true)
    (ht : ListOf marks words t) :
    Text.Tidy t ∧ t.head?.any Text.isListMark = false := by
  induction ht with
  | word hw =>
    obtain ⟨hne, hpart, hhead, -⟩ := hwords _ hw
    exact ⟨.word hne (List.all_eq_true.1 hpart), hhead⟩
  | @cons w c t hw hc ht ih =>
    obtain ⟨hne, hpart, hhead, hlast⟩ := hwords w hw
    have htidy : Text.Tidy w := .word hne (List.all_eq_true.1 hpart)
    have hmark := List.all_eq_true.1 hmarks c hc
    rw [Bool.or_eq_true, beq_iff_eq] at hmark
    constructor
    · rcases hmark with hmark | rfl
      · exact htidy.append_cons hmark ih.1
      · exact htidy.space ih.1 hlast ih.2
    · obtain ⟨d, r, rfl⟩ := List.exists_cons_of_ne_nil hne
      exact hhead

/-! ## What is left of the text -/

theorem extractDates_snd (t : Text) : (extractDates t).2 =
    Closed.yearEnd.blankOut (Closed.oneDate.blankOut (Closed.dateSpan.blankOut t)) := by
  have hspans : afterSpans t = Closed.dateSpan.blankOut t :=
    extract_snd_of_isSome (fun _ _ => rfl) t
  have hdays : afterDates t = Closed.oneDate.blankOut (afterSpans t) :=
    extract_snd_of_isSome (fun _ _ => rfl) _
  show Closed.yearEnd.blankOut (afterDates t) = _
  rw [hdays, hspans]

/-- The words for no regular closed days cannot be made of these characters. -/
theorem foldl_phrasePasses (ht : t ⊆ nonWeeklyAlphabet) :
    phrasePasses.foldl (fun rest p => p.blankOut rest) t =
      Closed.ordinalWeekday.blankOut
        (Closed.label.blankOut (extractDates (Clause.withoutRemarks t)).2) := by
  have hspace : ' ' ∈ nonWeeklyAlphabet := by decide
  have hsub : Closed.dayAfterHoliday.blankOut (Closed.openOnHolidays.blankOut
      (Closed.shift.blankOut t)) ⊆ nonWeeklyAlphabet :=
    ((thinned_blankOut _ t).trans ((thinned_blankOut _ _).trans (thinned_blankOut _ _))).subset
      hspace ht
  have hnever := blankOut_of_isMuteOver (p := Closed.never) (by decide +kernel) hsub
  rw [extractDates_snd, Clause.withoutRemarks, phrasePasses]
  simp only [List.foldl_cons, List.foldl_nil, hnever]

/-- What is left of a text without its days of every month. -/
def withoutMonthly (t : Text) : Text :=
  Closed.bareDays.blankOut (Closed.monthlyDays.blankOut t)

theorem attached_withoutMonthly (ht : Attached none t) : Attached none (withoutMonthly t) :=
  attached_blankOut (by decide) leavesAttached_bareDays
    (attached_blankOut (by decide) leavesAttached_monthlyDays ht)

theorem attached_leftPhrases : ∀ w ∈ leftPhrases, Attached none w := by
  decide +kernel

/-- Nothing but weekdays could be read as days in what is left of the phrases. -/
theorem occursIn_withoutMonthly (ht : ListOf phraseMarks leftPhrases t) :
    ∀ p ∈ dayWords, p.occursIn (withoutMonthly t) = false := by
  have hthin : Thinned t (withoutMonthly t) := (thinned_blankOut _ t).trans (thinned_blankOut _ _)
  have hsub : withoutMonthly t ⊆ leftAlphabet := hthin.subset (by decide) ht.subset
  have hgroup : Wording.dayGroup.blankOut t = t :=
    ht.blankOut_eq (by decide +kernel) (by decide +kernel)
  have hnone : Wording.dayGroup.occursIn t = false := by
    rw [← hgroup]
    exact occursIn_blankOut (by decide) (by decide) t
  intro p hp
  simp only [dayWords, List.mem_cons, List.not_mem_nil, or_false] at hp
  rcases hp with rfl | rfl | rfl | rfl
  · exact occursIn_of_isMuteOver (by decide +kernel) hsub
  · exact occursIn_of_isMuteOver (by decide +kernel) hsub
  · exact hthin.occursIn_eq_false (by decide) (by decide) hnone
  · exact occursIn_of_isMuteOver (by decide +kernel) hsub

/-- **What is left of the phrases is not about days.** -/
theorem extractDays_withoutMonthly (ht : ListOf phraseMarks leftPhrases t) :
    extractDays (withoutMonthly t) = (none, withoutMonthly t) := by
  have hattached : Attached none t := ht.attached attached_leftPhrases (by decide)
  exact (extractDays_eq_iff (occursIn_withoutMonthly ht)).2
    (attached_withoutMonthly hattached).not_namesWeekday

/-! ## The rules -/

theorem extractOrdinals_snd (shifts : Bool) (t : Text) :
    (extractOrdinals shifts t).2 = Closed.ordinalWeekday.blankOut t :=
  extract_snd_of_isSome (fun _ _ => rfl) t

theorem extractMonthly_snd (shifts : Bool) (t : Text) :
    (extractMonthly shifts t).2 = withoutMonthly t := by
  have hlists (p : Pattern) (u : Text) : (extractDayLists p u).2 = p.blankOut u :=
    extract_snd_of_isSome (fun _ _ => rfl) u
  rw [extractMonthly_eq, withoutMonthly]
  dsimp only
  rw [hlists, hlists]

/-- A recurring rule is weekly only if what is left without the others is about days. -/
theorem kind_ne_weekly_of_extractDays {shifts exceptHolidays : Bool}
    (hdays : (extractDays (withoutMonthly
      (Closed.ordinalWeekday.blankOut (Closed.label.blankOut t)))).1 = none)
    {r : ClosureRule} (hr : r ∈ Clause.recurringRules shifts exceptHolidays t) :
    r.kind ≠ .weekly := by
  rcases Clause.mem_recurringRules.1 hr with ⟨s, hs, -⟩ | hordinal | hmonthly
  · rw [extractMonthly_snd, extractOrdinals_snd, hdays] at hs
    exact absurd hs (by simp)
  · simp [(wellFormed_of_mem_extractOrdinals hordinal).2]
  · simp [(wellFormed_of_mem_extractMonthly hmonthly).2]

/-- **Phrases about months and days close no weekday**, however many they are and whatever stands
between them. -/
theorem ClosedDays.kind_ne_weekly_of_listOf (ht : ListOf phraseMarks nonWeeklyPhrases t) :
    ∀ r ∈ (ClosedDays.ofText (some t)).rules, r.kind ≠ .weekly := by
  have hleft := ht.foldl_blankOut blankedWords?_phrases
  rw [foldl_phrasePasses ht.subset] at hleft
  have hdays := congrArg Prod.fst (extractDays_withoutMonthly hleft)
  have hnormal : Text.normalize t = t :=
    (tidy_listOf (by decide +kernel) (by decide) ht).1.normalize
  have hremark : '※' ∉ t := fun hmem => absurd (ht.subset hmem) (by decide +kernel)
  intro r hr
  rw [ClosedDays.rules_ofText_of_no_remark hremark, hnormal, Clause.rules_readMain,
    Clause.rulesFrom] at hr
  rcases List.mem_append.1 hr with hrecurring | hdated
  · exact kind_ne_weekly_of_extractDays hdays hrecurring
  · simp [(wellFormed_of_mem_extractDates (Option.mem_toList.1 hdated)).2]

/-- Days of two phrases that are read as one list, between phrases that leave only spaces or
kanji. -/
def crowdedPhrases : Text :=
  "毎月".toList ++ '、' :: ("毎月5日・20日".toList ++ '・' :: ("15日".toList ++ ' ' ::
    ("(祝日の場合は開館し、翌日休館)".toList ++ ',' :: ("翌日".toList ++ ' ' :: "月末".toList))))

/-- The days are read as such, and no weekday is. -/
theorem crowdedPhrases_kind_ne_weekly :
    ListOf phraseMarks nonWeeklyPhrases crowdedPhrases ∧
      (ClosedDays.ofText (some crowdedPhrases)).rules = [.monthly [5, 15, 20] true] ∧
      ∀ r ∈ (ClosedDays.ofText (some crowdedPhrases)).rules, r.kind ≠ .weekly := by
  have hlist : ListOf phraseMarks nonWeeklyPhrases crowdedPhrases :=
    .cons (by decide) (by decide) (.cons (by decide) (by decide) (.cons (by decide) (by decide)
      (.cons (by decide) (by decide) (.cons (by decide) (by decide) (.word (by decide))))))
  exact ⟨hlist, by decide +kernel, ClosedDays.kind_ne_weekly_of_listOf hlist⟩

end OpeningHours
