import Mathlib.Data.List.Basic
import OpeningHours.Proofs.ClosedDays.PhraseText

/-!
# The passes for recurring days

The third and fourth pass over phrases about closed days read ordinal weekdays and days of every
month. Both patterns are an item followed by any number of marks and items, so a hit takes the list
of a phrase as a whole (`prefers_ordinalWeekday`, `prefers_monthlyDays`), and the list is read from
the part that the hit has kept (`ordinalNumbers_kept`, `dayNumbers_kept`).

A comma is a mark of such a list as well as the end of a phrase. The list of days stops there, since
the passes in front have left no number behind a comma (`MonthlyEnd`).

Main statements: **`extractOrdinals_phrases`** and **`extractMonthly_phrases`**.
-/

namespace OpeningHours

open Pattern Wording.Closed

variable {rest : Text}

/-! ## Ordinal weekdays -/

/-- A further ordinal in a list of them. -/
def nextOrdinal : Pattern :=
  blanks ++ listMark ++ blanks ++ opt (word "第") ++ ordinalDigit

theorem prefers_nextOrdinal (n : OrdinalNumeral) (rest : Text) :
    nextOrdinal.Prefers (['・', '第', n.char] ++ rest) ⟨['・', '第', n.char], [], rest⟩ := by
  have hmark : listMark.Prefers ('・' :: '第' :: n.char :: rest) ⟨['・'], [], '第' :: n.char :: rest⟩ :=
    ((prefers_one (by decide) _).alt_left _).alt_left _
  have hword : (word "第").Prefers ('第' :: n.char :: rest) _ := prefers_word "第" (n.char :: rest)
  exact ((((prefers_blanks_nothing rfl).seq hmark).seq (prefers_blanks_nothing rfl)).seq
    hword.opt).seq (prefers_ordinalDigit n rest)

/-- The list of ordinals ends in front of the weekday. -/
theorem fails_nextOrdinal (day : Weekday) (rest : Text) : nextOrdinal.Fails (day.kanji :: rest) :=
  fails_of_mayStart (by cases day <;> decide) rfl rest

/-- The list of ordinals is taken as a whole, with the weekday behind it. -/
theorem prefers_ordinalWeekday (n : OrdinalNumeral) (ns : List OrdinalNumeral) (day : Weekday)
    (rest : Text) {more : Text} (hmore : more = ns.flatMap fun n => ['・', '第', n.char]) :
    ordinalWeekday.Prefers (('第' :: n.char :: more ++ [day.kanji, '曜', '日']) ++ rest)
      ⟨'第' :: n.char :: more ++ [day.kanji, '曜', '日'],
        [(2, [day.kanji]), (1, n.char :: more)], rest⟩ := by
  have hword := prefers_word "第" (n.char :: more ++ day.kanji :: '曜' :: '日' :: rest)
  have hlist : nextOrdinal.star.Prefers (more ++ day.kanji :: '曜' :: '日' :: rest)
      ⟨more, [], day.kanji :: '曜' :: '日' :: rest⟩ := by
    rw [hmore]
    exact prefers_star_flatMap (fun _ => by simp) prefers_nextOrdinal
      (fails_nextOrdinal day ('曜' :: '日' :: rest)) ns
  have hnumbers := ((prefers_ordinalDigit n _).seq hlist).keep 1
  have hblanks : blanks.Prefers (day.kanji :: '曜' :: '日' :: rest) _ :=
    prefers_blanks_nothing (by cases day <;> rfl)
  have hday : (keep 2 (one Weekday.isKanji)).Prefers (day.kanji :: '曜' :: '日' :: rest) _ :=
    (prefers_one (by simp [Weekday.isKanji]) ('曜' :: '日' :: rest)).keep 2
  have hending : Wording.weekdayEnding.Prefers ('曜' :: '日' :: rest) _ :=
    (prefers_word "曜日" rest).alt_left _
  have hall := (((hword.seq hnumbers).seq hblanks).seq hday).seq hending.opt
  refine hall.of_eq ?_ ?_
  · simp
  · simp [Hit.andThen, Hit.nothing]

/-- The ordinals are read from the part that is kept, marks aside. -/
theorem ordinalNumbers_kept (n : OrdinalNumeral) (ns : List OrdinalNumeral) :
    ordinalNumbers (n.char :: ns.flatMap fun n => ['・', '第', n.char]) =
      ((n :: ns).map fun n => n.value.val).toFinset.sort := by
  have hmark : numeralUpTo? 5 ['・'] = none := by decide
  have hword : numeralUpTo? 5 ['第'] = none := by decide
  have hmore : (ns.flatMap fun n => ['・', '第', n.char]).filterMap (fun c => numeralUpTo? 5 [c]) =
      ns.map fun n => n.value.val := by
    induction ns with
    | nil => rfl
    | cons m ns ih =>
      rw [List.flatMap_cons, List.filterMap_append, ih]
      simp [hmark, hword, numeralUpTo?_ordinalNumeral]
  rw [ordinalNumbers, List.filterMap_cons, numeralUpTo?_ordinalNumeral, hmore, ascending_eq_sort]
  rfl

theorem ordinalRule?_kept {ordinals : List Nat} {kept : Text}
    (hkept : ordinalNumbers kept = ordinals) (hne : ordinals ≠ []) (day : Weekday) (shifts : Bool)
    (taken rest : Text) :
    Hit.ordinalRule? ⟨taken, [(2, [day.kanji]), (1, kept)], rest⟩ shifts =
      some (.ordinal ordinals day shifts) := by
  simp [Hit.ordinalRule?, Hit.part, Hit.part?, List.lookup_cons, hkept, hne]

theorem reads_ordinals (numbers : List OrdinalNumeral) (ne : numbers ≠ []) (day : Weekday)
    (shifts : Bool) (before : Option Char) (rest : Text) :
    ordinalWeekday.Reads (fun _ h => some (h.ordinalRule? shifts)) before
      (ClosurePhrase.ordinals numbers ne day).text rest
      [(ClosurePhrase.ordinals numbers ne day).ordinalRule? shifts] [' '] := by
  obtain ⟨n, ns, rfl⟩ := List.exists_cons_of_ne_nil ne
  have hne : ((n :: ns).map fun n => n.value.val).toFinset.sort ≠ [] := by
    rw [← ascending_eq_sort, Ne, ascending_eq_nil]
    exact List.cons_ne_nil _ _
  have htext : (ClosurePhrase.ordinals (n :: ns) ne day).text =
      '第' :: n.char :: (ns.flatMap fun n => ['・', '第', n.char]) ++ [day.kanji, '曜', '日'] := by
    rw [ClosurePhrase.text, Text.intercalate_map_cons]
    rfl
  rw [htext]
  refine .of_hit (by simp) (prefers_ordinalWeekday n ns day rest rfl) ?_
  exact congrArg some (ordinalRule?_kept (ordinalNumbers_kept n ns) hne day shifts _ _)

/-- **The pass for ordinal weekdays** reads one rule from each of their phrases. -/
theorem extractOrdinals_phrases (xs : List ClosurePhrase) (remark shifts : Bool) :
    extractOrdinals shifts (joined '、' (ClosurePhrase.left 2) xs (remarkLeft remark)) =
      (xs.filterMap (ClosurePhrase.ordinalRule? shifts),
        joined '、' (ClosurePhrase.left 3) xs (remarkLeft remark)) := by
  have hread : ordinalWeekday.extract (fun _ h => some (h.ordinalRule? shifts))
      (joined '、' (ClosurePhrase.left 2) xs (remarkLeft remark)) =
        (xs.flatMap fun x => (x.ordinalRule? shifts).toList.map some,
          joined '、' (ClosurePhrase.left 3) xs (remarkLeft remark)) := by
    refine extract_left (by decide) (by decide) (reads_left (by decide) ?_ ?_ ?_) xs remark
    · intro x hx
      cases x with
      | ordinals numbers ne day => exact absurd rfl hx
      | _ => rfl
    · intro x before rest hx _
      cases x with
      | ordinals numbers ne day => exact reads_ordinals numbers ne day shifts before rest
      | _ => simp [ClosurePhrase.turn] at hx
    · intro x before rest hx _
      exact .of_skips (skips_of_subset (by decide) (ClosurePhrase.text_subset_recurring hx) rest)
  rw [extractOrdinals, hread]
  exact congrArg (·, _) (filterMap_id_flatMap _ xs)

/-! ## Days of every month -/

/-- A further day in a list of them. -/
def nextDay : Pattern :=
  blanks ++ listMark ++ blanks ++ dayNumber ++ opt (word "日")

theorem fails_kanjiDigit_day (r : Text) : kanjiDigit.Fails ('日' :: r) :=
  fails_of_mayStart (by decide) rfl r

theorem prefers_nextDay (d : DayNumeral) (rest : Text) :
    nextDay.Prefers ('・' :: (d.text ++ ['日']) ++ rest) ⟨'・' :: (d.text ++ ['日']), [], rest⟩ := by
  have hmark : listMark.Prefers ('・' :: (d.text ++ '日' :: rest))
      ⟨['・'], [], d.text ++ '日' :: rest⟩ :=
    ((prefers_one (by decide) _).alt_left _).alt_left _
  have hday := prefers_dayNumber d rfl (fails_kanjiDigit_day rest)
  have hword : (word "日").Prefers ('日' :: rest) _ := prefers_word "日" rest
  have hall := ((((prefers_blanks_nothing rfl).seq hmark).seq
    (prefers_blanks_dayNumeral d ('日' :: rest))).seq hday).seq hword.opt
  refine hall.of_eq ?_ ?_
  · simp
  · simp [Hit.andThen, Hit.nothing]

/-- The list of days is taken as a whole. -/
theorem prefers_monthlyDays (d : DayNumeral) (ds : List DayNumeral) {more : Text}
    (hmore : more = ds.flatMap fun d => '・' :: (d.text ++ ['日'])) (hrest : nextDay.Fails rest) :
    monthlyDays.Prefers ((['毎', '月'] ++ (d.text ++ ['日'] ++ more)) ++ rest)
      ⟨['毎', '月'] ++ (d.text ++ ['日'] ++ more), [(1, d.text ++ ['日'] ++ more)], rest⟩ := by
  have hlist : nextDay.star.Prefers (more ++ rest) ⟨more, [], rest⟩ := by
    rw [hmore]
    exact prefers_star_flatMap (fun _ => List.cons_ne_nil _ _) prefers_nextDay hrest ds
  have hending : (word "日").Prefers ('日' :: (more ++ rest)) _ := prefers_word "日" _
  have hday := prefers_dayNumber d rfl (fails_kanjiDigit_day (more ++ rest))
  have hblanks := prefers_blanks_dayNumeral d ('日' :: (more ++ rest))
  have hword := prefers_word "毎月" (d.text ++ '日' :: (more ++ rest))
  have hall := (hword.seq hblanks).seq (((hday.seq hending.opt).seq hlist).keep 1)
  refine hall.of_eq ?_ ?_
  · simp
  · simp [Hit.andThen, Hit.nothing]

/-- The days are read from the part that is kept, marks aside. -/
theorem dayNumbers_kept (days : List DayNumeral) :
    dayNumbers (['・'].intercalate (days.map fun d => d.text ++ ['日'])) =
      days.map DayNumeral.value := by
  have hdot : dayNumber.mayStart '・' = false := by decide
  have hnone : dayNumber.Skips [] [] := trivial
  have hday (d : DayNumeral) (before : Option Char) (rest : Text) (_ : True) :
      dayNumber.Reads (fun _ h => numeralUpTo? 31 h.taken) before (d.text ++ ['日']) rest [d.value]
        ([' '] ++ ['日']) := by
    have hne : d.text ≠ [] := by
      cases d with
      | digits n first last => cases n <;> simp [DayNumeral.text, ShortNumeral.text]
      | kanji n first => exact (Kanji.writePositional_spec n first).2.1
    have hhit : dayNumber.Reads (fun _ h => numeralUpTo? 31 h.taken) before d.text (['日'] ++ rest)
        [d.value] [' '] :=
      .of_hit hne (prefers_dayNumber d rfl (fails_kanjiDigit_day rest)) (numeralUpTo?_dayNumeral d)
    have hword : dayNumber.Skips ['日'] rest := skips_of_all (by decide) rest
    exact hhit.append (.of_skips hword)
  have hread : dayNumber.extract (fun _ h => numeralUpTo? 31 h.taken)
      (joined '・' (fun d : DayNumeral => d.text ++ ['日']) days []) =
        (days.flatMap fun d => [d.value], joined '・' (fun _ => [' '] ++ ['日']) days []) :=
    extract_joined (fun _ => True) trivial (fun _ _ => trivial) hdot hnone hday days
  rw [joined, List.append_nil] at hread
  rw [dayNumbers, filterMap_findAll, hread, List.map_eq_flatMap]

theorem reads_monthly (days : List DayNumeral) (ne : days ≠ []) (before : Option Char)
    (hrest : nextDay.Fails rest) :
    monthlyDays.Reads (fun _ h => some (dayNumbers (h.part 1))) before
      (ClosurePhrase.monthly days ne).text rest [days.map DayNumeral.value] [' '] := by
  obtain ⟨d, ds, rfl⟩ := List.exists_cons_of_ne_nil ne
  have hlist := Text.intercalate_map_cons '・' (fun d : DayNumeral => d.text ++ ['日']) d ds
  have hkept := dayNumbers_kept (d :: ds)
  rw [hlist] at hkept
  rw [ClosurePhrase.text, hlist]
  refine .of_hit (by simp) (prefers_monthlyDays d ds rfl hrest) ?_
  rw [← hkept]
  rfl

/-! ## Where a list of days ends -/

/-- What stands behind days of every month: the end of their phrase, and no further day. -/
def MonthlyEnd (rest : Text) : Prop :=
  PhraseEnd rest ∧ nextDay.Fails rest

/-- No number stands at the end of a phrase, nor behind the space that a phrase has left. -/
theorem fails_dayNumber_trimStart (hrest : PhraseEnd rest) :
    dayNumber.Fails (Text.trimStart rest) := by
  obtain rfl | rfl | ⟨r, rfl⟩ := hrest
  · exact fails_nil rfl
  · exact fails_nil rfl
  · exact fails_of_mayStart (by decide) rfl r

theorem phraseEnd_joined (x : ClosurePhrase) (xs : List ClosurePhrase) (n : Nat) (shifts : Bool) :
    ∃ rest, joined '、' (ClosurePhrase.left n) (x :: xs) (remarkLeft shifts) = x.left n ++ rest ∧
      PhraseEnd rest := by
  obtain h | ⟨y, ys, h⟩ := joined_cons '、' (ClosurePhrase.left n) x xs (remarkLeft shifts)
  · exact ⟨_, h, phraseEnd_remarkLeft shifts⟩
  · exact ⟨_, h, .inr (.inr ⟨_, rfl⟩)⟩

/-- The phrases that are left in the fourth pass start with no number. -/
theorem fails_dayNumber_left (x : ClosurePhrase) (hrest : PhraseEnd rest) :
    dayNumber.Fails (Text.trimStart (x.left 3 ++ rest)) := by
  have hbehind := fails_dayNumber_trimStart hrest
  cases x with
  | monthly days ne => exact fails_of_mayStart (by decide) rfl _
  | weekdays days ne =>
    obtain ⟨d, ds, rfl⟩ := List.exists_cons_of_ne_nil ne
    have htext : ClosurePhrase.left 3 (.weekdays (d :: ds) ne) =
        [d.kanji, '曜', '日'] ++ ds.flatMap fun d => '・' :: [d.kanji, '曜', '日'] :=
      Text.intercalate_map_cons '・' _ d ds
    rw [htext]
    cases d <;> exact fails_of_mayStart (by decide) rfl _
  | _ => exact hbehind

theorem fails_nextDay_comma {r : Text} (hr : dayNumber.Fails (Text.trimStart r)) :
    nextDay.Fails ('、' :: r) := by
  have hday : (blanks ++ dayNumber).Fails r := fails_blanks_seq (by decide) rfl hr
  have hmark : (listMark ++ (blanks ++ dayNumber)).Fails ('、' :: r) := by
    apply Fails.seq
    intro before h hh
    have hhits : listMark.hits before ('、' :: r) = [⟨['、'], [], r⟩] := by
      simp [listMark, hits, word, oneOf, HOr.hOr, OrOp.or]
    rw [hhits, List.mem_singleton] at hh
    rw [hh]
    exact hday
  have hitem : (blanks ++ (listMark ++ (blanks ++ dayNumber))).Fails ('、' :: r) :=
    fails_blanks_seq (by decide) rfl hmark
  exact hitem.assoc.assoc.seq_left _

theorem monthlyEnd_comma (x : ClosurePhrase) (xs : List ClosurePhrase) (shifts : Bool) :
    MonthlyEnd ('、' :: joined '、' (ClosurePhrase.left 3) (x :: xs) (remarkLeft shifts)) := by
  obtain ⟨rest, htext, hrest⟩ := phraseEnd_joined x xs 3 shifts
  rw [htext]
  exact ⟨.inr (.inr ⟨_, rfl⟩), fails_nextDay_comma (fails_dayNumber_left x hrest)⟩

/-! ## The pass for days of every month -/

/-- The days that the pass reads of a phrase, if it is one about days of every month. -/
def readMonthly (x : ClosurePhrase) : List (List Nat) :=
  if x.turn = 3 then [x.daysOfMonth] else []

theorem flatten_readMonthly (xs : List ClosurePhrase) :
    (xs.flatMap readMonthly).flatten = xs.flatMap ClosurePhrase.daysOfMonth := by
  induction xs with
  | nil => rfl
  | cons x xs ih =>
    have hx : (readMonthly x).flatten = x.daysOfMonth := by
      cases x with
      | monthly days ne => exact List.append_nil _
      | _ => rfl
    rw [List.flatMap_cons, List.flatten_append, hx, ih, List.flatMap_cons]

/-- **The pass for days of every month** reads the days of all their phrases together. -/
theorem extractMonthly_phrases (xs : List ClosurePhrase) (remark shifts : Bool) :
    extractMonthly shifts (joined '、' (ClosurePhrase.left 3) xs (remarkLeft remark)) =
      (ClosurePhrase.monthlyRule? shifts xs,
        joined '、' (ClosurePhrase.left 4) xs (remarkLeft remark)) := by
  have hend : MonthlyEnd (remarkLeft remark) := by
    cases remark with
    | false => exact ⟨.inl rfl, fails_nil rfl⟩
    | true =>
      refine ⟨.inr (.inl rfl), fails_of_isDeadOver ?_ (List.Subset.refl [' '])⟩
      decide
  have hread : monthlyDays.extract (fun _ h => some (dayNumbers (h.part 1)))
      (joined '、' (ClosurePhrase.left 3) xs (remarkLeft remark)) =
        (xs.flatMap readMonthly, joined '、' (ClosurePhrase.left 4) xs (remarkLeft remark)) := by
    refine extract_joined MonthlyEnd hend (fun x xs => monthlyEnd_comma x xs remark) (by decide)
      (skips_remarkLeft (by decide) remark) (reads_left (by decide) ?_ ?_ ?_) xs
    · intro x hx
      exact if_neg hx
    · intro x before rest hx hrest
      cases x with
      | monthly days ne => exact reads_monthly days ne before hrest.2
      | _ => simp [ClosurePhrase.turn] at hx
    · intro x before rest hx _
      exact .of_skips (skips_of_subset (by decide) (ClosurePhrase.text_subset_weekday hx) rest)
  -- The phrases that are left hold no number, so there is no day without its `毎月`.
  have hsub := joined_left_subset 4 (fun _ hx => ClosurePhrase.text_subset_weekday hx) xs remark
  have hbare : bareDays.extract (fun _ h => some (dayNumbers (h.part 1)))
      (joined '、' (ClosurePhrase.left 4) xs (remarkLeft remark)) = ([], _) :=
    extract_of_isMuteOver _ (by decide) hsub
  simp only [extractMonthly, hread, hbare, flatten_readMonthly, List.flatten_nil, List.append_nil,
    List.isEmpty_iff, ascending_eq_nil]
  rw [ascending_eq_sort]
  rfl

end OpeningHours
