import Mathlib.Data.List.Basic
import OpeningHours.Proofs.ClosedDays.DatePasses
import OpeningHours.Proofs.ClosedDays.RecurringPasses
import OpeningHours.Proofs.Text.Tidy

/-!
# Texts about closed days

`ClosedDaysText` is a list of phrases about closed days with commas between them, perhaps with the
remark at its end that holidays shift a closed day to the day after. Each pass reads its own phrases
and leaves the others as they stand, so **a text is read as the rules of its phrases**
(`ClosedDaysText.ofText_phrases`), in whatever order the phrases come.

The first pass takes the remark (`ClosedDaysText.blankOut_shift`) and the last one the weekdays
(`extractDays_phrases`), which by then are tokens with marks between them.
-/

namespace OpeningHours

open Pattern

/-! ## The pass for weekdays -/

namespace ClosurePhrase

open DayToken

/-- What the passes in front of the pass for days have left of the phrase, as tokens. -/
def tokens : ClosurePhrase → List DayToken
  | weekdays days _ => dotted (days.map .spelled)
  | _ => [.space]

theorem texts_tokens (x : ClosurePhrase) : texts x.tokens = x.left 4 := by
  cases x with
  | weekdays days ne =>
    rw [tokens, texts_dotted, List.map_map]
    rfl
  | _ => rfl

theorem weekdays_tokens (x : ClosurePhrase) : DayToken.weekdays x.tokens = x.weeklyDays := by
  cases x with
  | weekdays days ne =>
    rw [tokens, weekdays_dotted, DayToken.weekdays, List.filterMap_map]
    exact List.filterMap_some
  | _ => rfl

theorem count_holiday_tokens (x : ClosurePhrase) : x.tokens.count .holiday = 0 := by
  cases x with
  | weekdays days ne =>
    rw [tokens, count_holiday_dotted, List.count_eq_zero]
    simp
  | _ => rfl

/-- What those passes have left of a list of phrases, as tokens. -/
def tokensOf (x : ClosurePhrase) (xs : List ClosurePhrase) (shifts : Bool) : List DayToken :=
  x.tokens ++ (xs.flatMap fun y => .comma :: y.tokens) ++ if shifts then [.space] else []

theorem texts_tokensOf (x : ClosurePhrase) (xs : List ClosurePhrase) (shifts : Bool) :
    texts (tokensOf x xs shifts) = joined '、' (left 4) (x :: xs) (remarkLeft shifts) := by
  have hmore : texts (xs.flatMap fun y => .comma :: y.tokens) =
      xs.flatMap fun y => '、' :: y.left 4 := by
    rw [texts, List.flatMap_assoc]
    congr 1
    funext y
    rw [← texts_tokens]
    rfl
  have hremark : texts (if shifts then [.space] else []) = remarkLeft shifts := by
    cases shifts <;> rfl
  rw [tokensOf, texts_append, texts_append, hmore, hremark, texts_tokens, joined,
    Text.intercalate_map_cons]

theorem weekdays_tokensOf (x : ClosurePhrase) (xs : List ClosurePhrase) (shifts : Bool) :
    DayToken.weekdays (tokensOf x xs shifts) = (x :: xs).flatMap weeklyDays := by
  have hmore : DayToken.weekdays (xs.flatMap fun y => .comma :: y.tokens) =
      xs.flatMap weeklyDays := by
    rw [DayToken.weekdays, List.filterMap_flatMap]
    congr 1
    funext y
    exact y.weekdays_tokens
  have hremark : DayToken.weekdays (if shifts then [.space] else []) = [] := by
    cases shifts <;> rfl
  rw [tokensOf, weekdays_append, weekdays_append, hmore, hremark, weekdays_tokens, List.append_nil,
    List.flatMap_cons]

theorem count_holiday_tokensOf (x : ClosurePhrase) (xs : List ClosurePhrase) (shifts : Bool) :
    (tokensOf x xs shifts).count .holiday = 0 := by
  have hmore : (xs.flatMap fun y => .comma :: y.tokens).count .holiday = 0 := by
    rw [List.count_eq_zero]
    intro hmem
    obtain ⟨y, -, hy⟩ := List.mem_flatMap.1 hmem
    have hcomma : .holiday ∉ y.tokens := List.count_eq_zero.1 y.count_holiday_tokens
    simp [hcomma] at hy
  rw [tokensOf, List.count_append, List.count_append, hmore, count_holiday_tokens]
  cases shifts <;> rfl

end ClosurePhrase

/-- Without holidays, tokens may stand side by side. -/
theorem holidaysApart_of_count {tokens : List DayToken} (h : tokens.count .holiday = 0) :
    DayToken.HolidaysApart tokens := by
  have hnone : .holiday ∉ tokens := List.count_eq_zero.1 h
  apply List.Pairwise.isChain
  apply List.pairwise_of_forall_mem_list
  rintro a ha b - rfl
  exact absurd ha hnone

/-- **The pass for days** reads the weekdays of all their phrases together, and leaves marks. -/
theorem extractDays_phrases {xs : List ClosurePhrase} (ne : xs ≠ []) (remark shifts : Bool) :
    ∃ days rest, extractDays (joined '、' (ClosurePhrase.left 4) xs (remarkLeft remark)) =
        (days, rest) ∧
      (days.bind fun s => weeklyRule? s shifts false) = ClosurePhrase.weeklyRule? shifts xs ∧
      rest ⊆ [' ', '・', '、'] := by
  obtain ⟨x, xs, rfl⟩ := List.exists_cons_of_ne_nil ne
  have hcount := ClosurePhrase.count_holiday_tokensOf x xs remark
  have hread := DayToken.extractDays_texts (holidaysApart_of_count hcount)
  rw [ClosurePhrase.texts_tokensOf, hcount, ClosurePhrase.weekdays_tokensOf] at hread
  refine ⟨_, _, hread, ?_, DayToken.left_subset _⟩
  rw [List.replicate_zero, List.nil_append, ClosurePhrase.weeklyRule?]
  generalize (x :: xs).flatMap ClosurePhrase.weeklyDays = days
  by_cases hdays : days = []
  · rw [hdays]
    rfl
  · rw [DayScope.ofMentions?_weekdays hdays]
    simp [weeklyRule?, DayScope.named, WeekdaySet.isEmpty_ofList hdays, hdays]

/-! ## Whole texts -/

/-- A text about closed days: phrases, and perhaps the remark that holidays shift closed days. -/
structure ClosedDaysText where
  phrases : List ClosurePhrase
  ne : phrases ≠ []
  shifts : Bool

namespace ClosedDaysText

/-- The remark that a closed day that is a holiday is shifted to the day after. -/
def remark : Text :=
  "(祝日の場合は翌日)".toList

variable (t : ClosedDaysText)

/-- The text as it is written. -/
def text : Text :=
  ['、'].intercalate (t.phrases.map ClosurePhrase.text) ++ if t.shifts then remark else []

/-- The rules that the text states: those for weekdays, ordinal weekdays, days of every month and
days of the year. -/
def rules : List ClosureRule :=
  (ClosurePhrase.weeklyRule? t.shifts t.phrases).toList ++
    t.phrases.filterMap (ClosurePhrase.ordinalRule? t.shifts) ++
    (ClosurePhrase.monthlyRule? t.shifts t.phrases).toList ++
    (ClosurePhrase.datedRule? t.phrases).toList

/-- The characters of texts about closed days. -/
def alphabet : List Char :=
  '、' :: remark ++ ClosurePhrase.alphabet

theorem phrases_subset :
    ['、'].intercalate (t.phrases.map ClosurePhrase.text) ⊆ '、' :: ClosurePhrase.alphabet := by
  refine Text.intercalate_subset List.mem_cons_self fun u hu => ?_
  obtain ⟨x, -, rfl⟩ := List.mem_map.1 hu
  exact List.subset_cons_of_subset _ x.text_subset

theorem text_subset : t.text ⊆ alphabet := by
  have hphrases : '、' :: ClosurePhrase.alphabet ⊆ alphabet := by decide
  have hremark : remark ⊆ alphabet := by decide
  refine List.append_subset.2 ⟨List.Subset.trans t.phrases_subset hphrases, ?_⟩
  cases t.shifts with
  | false => exact List.nil_subset _
  | true => exact hremark

theorem text_ne_nil : t.text ≠ [] := by
  obtain ⟨x, xs, hxs⟩ := List.exists_cons_of_ne_nil t.ne
  have hx := x.text_ne_nil
  rw [text, hxs, Text.intercalate_map_cons]
  simp [hx]

theorem tidy_text : Text.Tidy t.text :=
  Text.Tidy.of_subset (by decide) t.text_subset t.text_ne_nil

/-! ### The remark about holidays -/

/-- The remark is taken as a whole. What the pattern allows and the remark does not say starts with
other characters. -/
theorem prefers_shift : Wording.Closed.shift.Prefers remark ⟨remark, [], []⟩ := by
  have hchars : remark = ['(', '祝', '日', 'の', '場', '合', 'は', '翌', '日', ')'] := rfl
  have hopen := (prefers_word "(" ['祝', '日', 'の', '場', '合', 'は', '翌', '日', ')']).opt
  have hholiday : Wording.holiday.Prefers ['祝', '日', 'の', '場', '合', 'は', '翌', '日', ')'] _ :=
    .alt_right (fails_word rfl) (.alt_right (fails_word rfl)
      ((prefers_word "祝日" ['の', '場', '合', 'は', '翌', '日', ')']).alt_left _))
  have hsubstitute : (opt (word "・振替休日")).Prefers ['の', '場', '合', 'は', '翌', '日', ')'] _ :=
    Fails.opt (fails_word rfl)
  have hparticle : (opt (oneOf "のにと")).Prefers ['の', '場', '合', 'は', '翌', '日', ')'] _ :=
    (prefers_one rfl _).opt
  have hfall : (opt (anyWord ["あたる", "当たる", "重なる"])).Prefers
      ['場', '合', 'は', '翌', '日', ')'] _ := Fails.opt (fails_of_mayStart rfl rfl _)
  have hcase : (anyWord ["場合", "とき", "時"]).Prefers ['場', '合', 'は', '翌', '日', ')'] _ :=
    (prefers_word "場合" ['は', '翌', '日', ')']).alt_left _
  have htopic := (prefers_word "は" ['翌', '日', ')']).opt
  have hcomma : (opt (oneOf ",、")).Prefers ['翌', '日', ')'] _ := Fails.opt (fails_one rfl _)
  have hstay : (opt (anyWord ["開館", "開園", "開場", "営業", "開所"] ++ word "し" ++
      opt (word "て") ++ opt (oneOf ",、"))).Prefers ['翌', '日', ')'] _ :=
    Fails.opt (fails_of_mayStart rfl rfl _)
  have hthat : (opt (word "その")).Prefers ['翌', '日', ')'] _ := Fails.opt (fails_word rfl)
  have hnext := prefers_word "翌" ['日', ')']
  have hday : (anyWord ["日", "平日", "開館日"]).Prefers ['日', ')'] _ :=
    (prefers_word "日" [')']).alt_left _
  have hclosed : (opt (anyWord ["に振替", "休館", "休業", "休園", "休み"])).Prefers [')'] _ :=
    Fails.opt (fails_of_mayStart rfl rfl _)
  have hclose := (prefers_word ")" []).opt
  rw [hchars]
  exact ((((((((((((hopen.seq hholiday).seq hsubstitute).seq hparticle).seq hfall).seq hcase).seq
    htopic).seq hcomma).seq hstay).seq hthat).seq hnext).seq hday).seq hclosed).seq hclose

theorem skips_shift (rest : Text) :
    Wording.Closed.shift.Skips (['、'].intercalate (t.phrases.map ClosurePhrase.text)) rest := by
  exact skips_of_subset (by decide) t.phrases_subset rest

/-- The text shifts closed days exactly if it has the remark. -/
theorem occursIn_shift : Wording.Closed.shift.occursIn t.text = t.shifts := by
  cases hshifts : t.shifts with
  | true =>
    rw [text, hshifts, if_pos rfl]
    exact occursIn_of_skips (t.skips_shift remark) prefers_shift (by decide)
  | false =>
    rw [text, hshifts, if_neg Bool.false_ne_true, List.append_nil]
    exact occursIn_of_isMuteOver (by decide) t.phrases_subset

/-- Without the remark the text is what the first pass over phrases meets. -/
theorem blankOut_shift :
    Wording.Closed.shift.blankOut t.text =
      joined '、' (ClosurePhrase.left 0) t.phrases (remarkLeft t.shifts) := by
  have hleft : ClosurePhrase.left 0 = ClosurePhrase.text := rfl
  rw [hleft, joined, text]
  cases t.shifts with
  | true =>
    have hremark (before : Option Char) :
        Wording.Closed.shift.Reads (fun _ h => some h) before remark [] [_] [' '] :=
      .of_hit (by decide) prefers_shift rfl
    have hphrases : Wording.Closed.shift.Reads (fun _ h => some h) none
        (['、'].intercalate (t.phrases.map ClosurePhrase.text)) (remark ++ []) [] _ :=
      .of_skips (t.skips_shift _)
    exact congrArg Prod.snd (extract_of_reads (hphrases.append (hremark _)))
  | false =>
    rw [if_neg Bool.false_ne_true, remarkLeft, if_neg Bool.false_ne_true, List.append_nil]
    exact blankOut_of_isMuteOver (by decide) t.phrases_subset

/-! ### The main clause -/

/-- Without the remark the text says nothing about holidays, and nothing in general. -/
theorem withoutRemarks_text :
    Clause.withoutRemarks t.text =
      joined '、' (ClosurePhrase.left 0) t.phrases (remarkLeft t.shifts) := by
  simp only [Clause.withoutRemarks, List.foldl_cons, List.foldl_nil, t.blankOut_shift,
    blankOut_left (p := Wording.Closed.openOnHolidays) (by decide),
    blankOut_left (p := Wording.Closed.dayAfterHoliday) (by decide),
    blankOut_left (p := Wording.Closed.never) (by decide),
    blankOut_left (p := Wording.Closed.irregular) (by decide),
    blankOut_left (p := Wording.inquiry) (by decide)]

theorem dayAfterHolidayNote_text : Clause.dayAfterHolidayNote t.text = [] := by
  have hafter : Wording.Closed.dayAfterHoliday.find?
      (joined '、' (ClosurePhrase.left 0) t.phrases (remarkLeft t.shifts)) = none :=
    find?_eq_none_of_skips (skips_left (by decide) 0 t.phrases t.shifts)
  rw [Clause.dayAfterHolidayNote, t.blankOut_shift,
    blankOut_left (p := Wording.Closed.openOnHolidays) (by decide), hafter]
  rfl

/-- Marks between phrases leave no note. -/
theorem leftover_marks {rest : Text} (hrest : rest ⊆ [' ', '・', '、']) :
    Clause.leftover rest = [] := by
  have hword : Wording.Closed.closureWord.isMuteOver [' ', '・', '、'] = true := by decide
  rw [Clause.leftover, blankOut_of_isMuteOver hword hrest,
    Text.remainder?_eq_none (Text.isSilent_of_subset (by decide) hrest)]
  rfl

theorem readMain_text : Clause.readMain t.text = { rules := t.rules, notes := [] } := by
  have hopen : Wording.Closed.openOnHolidays.occursIn
      (joined '、' (ClosurePhrase.left 0) t.phrases (remarkLeft t.shifts)) = false :=
    occursIn_left (by decide) 0 t.phrases t.shifts
  have hlabel : Wording.Closed.label.blankOut
      (joined '、' (ClosurePhrase.left 2) t.phrases (remarkLeft t.shifts)) = _ :=
    blankOut_left (by decide) 2 t.phrases t.shifts
  obtain ⟨days, rest, hdays, hweekly, hrest⟩ := extractDays_phrases t.ne t.shifts t.shifts
  simp only [Clause.readMain, t.occursIn_shift, t.blankOut_shift, hopen, t.withoutRemarks_text,
    extractDates_phrases, hlabel, extractOrdinals_phrases, extractMonthly_phrases, hdays, hweekly,
    t.dayAfterHolidayNote_text, leftover_marks hrest, List.append_nil]
  rfl

/-- **A text about closed days is read as the rules of its phrases**, whatever their order and their
number: it is its own normal form, its rules shift exactly if it has the remark, and nothing else is
said. -/
theorem ofText_phrases :
    ClosedDays.ofText (some t.text) =
      { raw := some t.text, normalized := some t.text, rules := t.rules } := by
  have hcut : Text.cut (· == '※') t.text = [t.text] := by
    apply Text.cut_of_no_separator
    intro c hc
    have hall : (alphabet.all fun c => c != '※') = true := by decide
    simpa using List.all_eq_true.1 hall c (t.text_subset hc)
  have hnever : Wording.Closed.never.occursIn t.text = false :=
    occursIn_of_isMuteOver (by decide) t.text_subset
  have hirregular : Wording.Closed.irregular.occursIn t.text = false :=
    occursIn_of_isMuteOver (by decide) t.text_subset
  have hinquiry : Wording.inquiry.occursIn t.text = false :=
    occursIn_of_isMuteOver (by decide) t.text_subset
  have hclauses : ClosedDays.readClauses t.text = [{ rules := t.rules, notes := [] }] := by
    rw [ClosedDays.readClauses, hcut, ← t.readMain_text]
    rfl
  have hne : t.text.isEmpty = false := by simpa using t.text_ne_nil
  rw [ClosedDays.ofText, t.tidy_text.normalize, ClosedDays.readNormal, hne, hclauses, hnever,
    hirregular, hinquiry]
  simp

/-- A phrase of each kind with numerals of each kind, and the remark: the rules come in the order of
the passes, their numbers in ascending order, and those that recur shift. -/
theorem ofText_everyPhrase :
    let closed : ClosedDaysText :=
      { phrases :=
          [.date ⟨.one (.of 8), .two (.of 1) (.of 5), by decide⟩,
            .ordinals [⟨4, by decide, true⟩, ⟨2, by decide, false⟩] (List.cons_ne_nil _ _) .sun,
            .weekdays [.mon, .thu] (List.cons_ne_nil _ _),
            .span ⟨.two (.of 1) (.of 2), .two (.of 2) (.of 9), by decide⟩
              ⟨.one (.of 1), .one (.of 3), by decide⟩,
            .monthly [.kanji 20 (by decide), .digits (.one (.of 5)) (by decide) (by decide)]
              (List.cons_ne_nil _ _)]
        ne := List.cons_ne_nil _ _
        shifts := true }
    closed.text =
      "8/15、第四・第2日曜日、月曜日・木曜日、12/29~1/3、毎月二十日・5日(祝日の場合は翌日)".toList ∧
    ClosedDays.ofText (some closed.text) =
      { raw := some closed.text
        normalized := some closed.text
        rules := [
          .weekly (.ofList [.mon, .thu]) false true false,
          .ordinal [2, 4] .sun true,
          .monthly [5, 20] true,
          .dated [⟨8, 15⟩] [⟨⟨12, 29⟩, ⟨1, 3⟩⟩]] } := by
  intro closed
  -- Evaluation gets stuck at `Finset.sort`, but not at `ascending`.
  obtain ⟨hordinals, hmonthly⟩ :
      [4, 2].toFinset.sort = [2, 4] ∧ [20, 5].toFinset.sort = [5, 20] := by
    rw [← ascending_eq_sort, ← ascending_eq_sort]
    decide
  refine ⟨by decide +kernel, ?_⟩
  rw [closed.ofText_phrases, ← hordinals, ← hmonthly]
  rfl

end ClosedDaysText

end OpeningHours
