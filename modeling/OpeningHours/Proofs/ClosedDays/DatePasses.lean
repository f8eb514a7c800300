import Mathlib.Data.List.Basic
import OpeningHours.Proofs.ClosedDays.PhraseText

/-!
# The passes for days of the year

The first two passes over phrases about closed days read the spans and then the single dates. Spans
hold a range glyph, and a phrase without one is passed over. The pass for dates has more to pass
over: a digit may stand in an ordinal or in a day of every month, and `月` may stand behind it, as in
`第2月曜日`. It reads nothing there, since no number follows the `月`.

Both passes together make one rule of the dates and spans of all phrases
(**`extractDates_phrases`**).
-/

namespace OpeningHours

open Pattern Wording.Closed

variable {rest : Text}

/-! ## Dates in front of a rest -/

theorem prefers_dateAt (d : SlashDate) (month day : Slot)
    (hdigit : rest.head?.any Char.isDigit = false) (hend : (word "日").Fails rest) :
    (dateAt month day).Prefers (d.text ++ rest)
      ⟨d.text, [(day, d.day.text), (month, d.month.text)], rest⟩ := by
  have hmonth : (keep month oneOrTwoDigits).Prefers
      (d.month.text ++ '/' :: (d.day.text ++ rest)) _ :=
    (prefers_oneOrTwoDigits d.month rfl).keep month
  have hslash : (word "/" ||| word "月").Prefers ('/' :: (d.day.text ++ rest)) _ :=
    (prefers_word "/" (d.day.text ++ rest)).alt_left _
  have hday := (prefers_oneOrTwoDigits d.day hdigit).keep day
  have hdate := ((hmonth.seq hslash).seq hday).seq hend.opt
  refine hdate.of_eq ?_ ?_
  · simp [SlashDate.text]
  · simp [SlashDate.text, Hit.andThen, Hit.nothing]

theorem prefers_dateSpan (first last : SlashDate) (hrest : PhraseEnd rest) :
    dateSpan.Prefers (first.text ++ '~' :: (last.text ++ rest))
      ⟨first.text ++ '~' :: last.text,
        [(4, last.day.text), (3, last.month.text), (2, first.day.text), (1, first.month.text)],
        rest⟩ := by
  have hstart : (dateAt 1 2).Prefers (first.text ++ '~' :: (last.text ++ rest)) _ :=
    prefers_dateAt first 1 2 rfl (fails_of_mayStart rfl rfl _)
  have hglyph := prefers_word "~" (last.text ++ rest)
  have hmonth : (keep 3 oneOrTwoDigits).Prefers
      (last.month.text ++ '/' :: (last.day.text ++ rest)) _ :=
    (prefers_oneOrTwoDigits last.month rfl).keep 3
  have hslash : (word "/" ||| word "月").Prefers ('/' :: (last.day.text ++ rest)) _ :=
    (prefers_word "/" (last.day.text ++ rest)).alt_left _
  have hday := (prefers_oneOrTwoDigits last.day hrest.not_digit).keep 4
  have hend : (word "日").Fails rest := hrest.fails rfl rfl rfl
  have hblanks : blanks.Prefers (last.text ++ rest) (.nothing (last.text ++ rest)) := by
    rw [SlashDate.text, List.append_assoc]
    exact prefers_blanks_numeral last.month _
  have hfinish : (opt (keep 3 oneOrTwoDigits ++ (word "/" ||| word "月"))).Prefers
      (last.text ++ rest)
      ⟨last.month.text ++ ['/'], [(3, last.month.text)], last.day.text ++ rest⟩ := by
    rw [SlashDate.text, List.append_assoc]
    exact (hmonth.seq hslash).opt
  have hspan := (((((hstart.seq (prefers_blanks_nothing rfl)).seq hglyph).seq hblanks).seq
    hfinish).seq hday).seq hend.opt
  refine hspan.of_eq rfl ?_
  simp [SlashDate.text, Hit.andThen, Hit.nothing]

/-! ## The pass for spans -/

theorem reads_span (first last : SlashDate) (before : Option Char) (hrest : PhraseEnd rest) :
    dateSpan.Reads (fun _ h => some h.dateSpan?) before (first.text ++ '~' :: last.text) rest
      [some ⟨first.monthDay, last.monthDay⟩] [' '] := by
  have hspan := prefers_dateSpan first last hrest
  have htext : first.text ++ '~' :: (last.text ++ rest) =
      (first.text ++ '~' :: last.text) ++ rest := by simp
  rw [htext] at hspan
  refine .of_hit (by simp) hspan ?_
  simp [Hit.dateSpan?, Hit.number, Hit.number?, Hit.part, Hit.part?, List.lookup_cons,
    SlashDate.ofNumbers?_values]

/-- **The pass for spans** reads the spans and leaves the other phrases. -/
theorem extract_spans (xs : List ClosurePhrase) (shifts : Bool) :
    dateSpan.extract (fun _ h => some h.dateSpan?)
        (joined '、' (ClosurePhrase.left 0) xs (remarkLeft shifts)) =
      (xs.flatMap fun x => x.span?.toList.map some,
        joined '、' (ClosurePhrase.left 1) xs (remarkLeft shifts)) := by
  refine extract_left (by decide) (by decide) (reads_left (by decide) ?_ ?_ ?_) xs shifts
  · intro x hx
    cases x with
    | span first last => exact absurd rfl hx
    | _ => rfl
  · intro x before rest hx hrest
    cases x with
    | span first last => exact reads_span first last before hrest
    | _ => simp [ClosurePhrase.turn] at hx
  · intro x before rest hx hrest
    have hplain := ClosurePhrase.text_subset_plain (Nat.ne_of_gt hx)
    exact .of_skips (hrest.skips (by decide) (by decide) hplain)

/-! ## The pass for dates -/

/-- No number goes on at the start of the text, and no date either. -/
def EndsNumber (rest : Text) : Prop :=
  rest.head?.any Char.isDigit = false ∧
    ((word "/" ||| word "月") ++ keep 2 oneOrTwoDigits).Fails rest

theorem fails_oneDate (n : ShortNumeral) (hrest : EndsNumber rest) :
    oneDate.Fails (n.text ++ rest) := by
  have hnumber : (keep 1 oneOrTwoDigits ++
      ((word "/" ||| word "月") ++ keep 2 oneOrTwoDigits)).Fails (n.text ++ rest) :=
    fails_digits_seq 1 hrest.1 hrest.2 fun e => fails_of_digit (by decide) rfl e rest
  exact hnumber.assoc.seq_left _

/-- A number in front of anything but a slash or `月` is not the start of a date. -/
theorem endsNumber_cons {c : Char} (hdigit : c.isDigit = false)
    (hmark : (word "/" ||| word "月").mayStart c = false) (r : Text) : EndsNumber (c :: r) :=
  ⟨by simpa using hdigit, (fails_of_mayStart hmark rfl r).seq_left _⟩

/-- Nor is one in front of a spelled-out weekday, even if this is `月曜日`. -/
theorem endsNumber_spelled (day : Weekday) (r : Text) :
    EndsNumber ([day.kanji, '曜', '日'] ++ r) := by
  refine ⟨by cases day <;> rfl, ?_⟩
  have hkanji : [day.kanji] ⊆ ['月', '火', '水', '木', '金', '土', '日'] := by
    cases day <;> decide
  exact fails_before (by decide) (by decide) hkanji ('日' :: r)

/-- The pass for dates passes over an ordinal. -/
theorem skips_ordinal (n : OrdinalNumeral) (hrest : EndsNumber rest) :
    oneDate.Skips ['第', n.char] rest := by
  refine ⟨fun before => first?_of_mayStart (by decide) before _, fun before => ?_, trivial⟩
  by_cases hn : n.char.isDigit = true
  · exact first?_of_fails (fails_oneDate (.one ⟨n.char, hn⟩) hrest) before
  · refine first?_of_mayStart ?_ before rest
    simpa [oneDate, dateAt] using hn

/-- The pass for dates passes over a day of every month. -/
theorem skips_monthDay (d : DayNumeral) (rest : Text) :
    oneDate.Skips (d.text ++ ['日']) rest := by
  refine skips_append.2 ⟨?_, skips_of_all (by decide) rest⟩
  cases d with
  | digits n first last =>
    exact skips_numeral n fun m => fails_oneDate m (endsNumber_cons rfl rfl rest)
  | kanji n first =>
    refine skips_of_mayStart (fun c hc => ?_) _
    have hkanji := isDigit_of_mem_numeralKanji ((Kanji.writePositional_spec n first).1 hc)
    simpa [oneDate, dateAt] using hkanji

theorem reads_date (day : SlashDate) (before : Option Char) (hrest : PhraseEnd rest) :
    oneDate.Reads (fun _ h => some h.oneDate?) before day.text rest [some day.monthDay] [' '] := by
  have hend : (word "日").Fails rest := hrest.fails rfl rfl rfl
  refine .of_hit (by simp [SlashDate.text]) (prefers_dateAt day 1 2 hrest.not_digit hend) ?_
  simp [Hit.oneDate?, Hit.number, Hit.part, Hit.part?, List.lookup_cons,
    SlashDate.ofNumbers?_values]

/-- **The pass for dates** reads the dates and leaves the phrases whose turn comes later. -/
theorem extract_dates (xs : List ClosurePhrase) (shifts : Bool) :
    oneDate.extract (fun _ h => some h.oneDate?)
        (joined '、' (ClosurePhrase.left 1) xs (remarkLeft shifts)) =
      (xs.flatMap fun x => x.date?.toList.map some,
        joined '、' (ClosurePhrase.left 2) xs (remarkLeft shifts)) := by
  have hdot : oneDate.mayStart '・' = false := by decide
  refine extract_left (by decide) (by decide) (reads_left (by decide) ?_ ?_ ?_) xs shifts
  · intro x hx
    cases x with
    | date day => exact absurd rfl hx
    | _ => rfl
  · intro x before rest hx hrest
    cases x with
    | date day => exact reads_date day before hrest
    | _ => simp [ClosurePhrase.turn] at hx
  · intro x before rest hx hrest
    apply Reads.of_skips
    cases x with
    | span first last => simp [ClosurePhrase.turn] at hx
    | date day => simp [ClosurePhrase.turn] at hx
    | ordinals numbers ne day =>
      have hnumbers := skips_joined EndsNumber (endsNumber_spelled day rest)
        (fun _ _ => endsNumber_cons rfl rfl _) hdot (fun n _ hrest => skips_ordinal n hrest) numbers
      have hday : oneDate.Skips [day.kanji, '曜', '日'] rest :=
        skips_of_all (by cases day <;> decide) rest
      exact skips_append.2 ⟨hnumbers, hday⟩
    | monthly days ne =>
      have hdays : oneDate.Skips (['・'].intercalate (days.map fun d => d.text ++ ['日'])) rest :=
        skips_joined (fun _ => True) trivial (fun _ _ => trivial) hdot
          (fun d rest _ => skips_monthDay d rest) days
      exact skips_append.2 ⟨skips_of_all (by decide) _, hdays⟩
    | weekdays days ne =>
      exact skips_of_subset (by decide) (ClosurePhrase.weekdays_subset days) rest

/-! ## Both passes -/

/-- **The passes for days of the year** read one rule from all their phrases together. -/
theorem extractDates_phrases (xs : List ClosurePhrase) (shifts : Bool) :
    extractDates (joined '、' (ClosurePhrase.left 0) xs (remarkLeft shifts)) =
      (ClosurePhrase.datedRule? xs, joined '、' (ClosurePhrase.left 2) xs (remarkLeft shifts)) := by
  have hyearEnd : yearEnd.isMuteOver ('、' :: ' ' :: ClosurePhrase.alphabet) = true := by decide
  simp only [extractDates, extract_spans, extract_dates, filterMap_id_flatMap,
    occursIn_left hyearEnd, blankOut_left hyearEnd, Bool.false_and,
    Bool.false_eq_true, if_false, datedRule?, Bool.and_eq_true, List.isEmpty_iff]
  rfl

end OpeningHours
