import Mathlib.Data.Finset.Sort
import OpeningHours.Proofs.ClosedDays.NumeralText
import OpeningHours.Proofs.Pattern.Joined
import OpeningHours.Proofs.Scope.DayList

/-!
# Phrases about closed days as they are written

A phrase names weekdays (`月曜日・水曜日`), ordinal weekdays (`第2・第4月曜日`), days of every month
(`毎月5日・二十日`), a day of the year (`12/29`) or a span of such days (`12/29~1/3`). Each kind of
phrase is read by a pass of its own, and its `turn` is the number of this pass. `left n` is what the
passes in front of the `n`-th have left of a phrase.

A pass meets the phrases in front of a comma, of a space or of nothing (`PhraseEnd`). If it reads
its own phrases there and passes over those whose turn comes later (`reads_left`), it reads all its
phrases in a list of phrases and leaves the others (**`extract_left`**).
-/

namespace OpeningHours

open Pattern

/-! ## Days of the year -/

/-- A day of the year as it is written with a slash. -/
structure SlashDate where
  month : ShortNumeral
  day : ShortNumeral
  isDate : IsDate 2024 month.value day.value

namespace SlashDate

/-- The day as it is written. -/
def text (d : SlashDate) : Text :=
  d.month.text ++ '/' :: d.day.text

/-- The day that is meant. -/
def monthDay (d : SlashDate) : MonthDay :=
  ⟨d.month.value, d.day.value⟩

theorem text_subset {alphabet : List Char} (d : SlashDate) (hdigits : asciiDigits ⊆ alphabet)
    (hslash : '/' ∈ alphabet) : d.text ⊆ alphabet := by
  have hmonth := List.Subset.trans d.month.text_subset hdigits
  have hday := List.Subset.trans d.day.text_subset hdigits
  exact List.append_subset.2 ⟨hmonth, List.cons_subset.2 ⟨hslash, hday⟩⟩

theorem ofNumbers?_values (d : SlashDate) :
    MonthDay.ofNumbers? d.month.value d.day.value = some d.monthDay :=
  if_pos d.isDate

end SlashDate

/-! ## Ascending lists -/

theorem ascending_eq_sort (ns : List Nat) : ascending ns = ns.toFinset.sort := by
  have hmem : (ascending ns).toFinset = ns.toFinset := by
    ext k
    rw [List.mem_toFinset, List.mem_toFinset, mem_ascending]
  have hlt := pairwise_ascending ns
  have hnodup : (ascending ns).Nodup := hlt.imp fun h => Nat.ne_of_lt h
  have hle : (ascending ns).Pairwise (· ≤ ·) := hlt.imp fun h => Nat.le_of_lt h
  rw [← hmem, (List.toFinset_sort (· ≤ ·) hnodup).2 hle]

theorem ascending_eq_nil {ns : List Nat} : ascending ns = [] ↔ ns = [] := by
  simp only [List.eq_nil_iff_forall_not_mem, mem_ascending]

/-! ## Phrases -/

/-- A phrase about closed days. -/
inductive ClosurePhrase where
  | weekdays (days : List Weekday) (ne : days ≠ [])
  | ordinals (numbers : List OrdinalNumeral) (ne : numbers ≠ []) (day : Weekday)
  | monthly (days : List DayNumeral) (ne : days ≠ [])
  | date (day : SlashDate)
  | span (first last : SlashDate)

namespace ClosurePhrase

/-- The phrase as it is written. -/
def text : ClosurePhrase → Text
  | weekdays days _ => ['・'].intercalate (days.map fun d => [d.kanji, '曜', '日'])
  | ordinals numbers _ day =>
    ['・'].intercalate (numbers.map fun n => ['第', n.char]) ++ [day.kanji, '曜', '日']
  | monthly days _ => ['毎', '月'] ++ ['・'].intercalate (days.map fun d => d.text ++ ['日'])
  | date day => day.text
  | span first last => first.text ++ '~' :: last.text

/-- The weekdays that are closed in every week. -/
def weeklyDays : ClosurePhrase → List Weekday
  | weekdays days _ => days
  | _ => []

/-- The rule for ordinal weekdays. -/
def ordinalRule? (shifts : Bool) : ClosurePhrase → Option ClosureRule
  | ordinals numbers _ day =>
    some (.ordinal (numbers.map fun n => n.value.val).toFinset.sort day shifts)
  | _ => none

/-- The days that are closed in every month. -/
def daysOfMonth : ClosurePhrase → List Nat
  | monthly days _ => days.map DayNumeral.value
  | _ => []

/-- The day of the year. -/
def date? : ClosurePhrase → Option MonthDay
  | date day => some day.monthDay
  | _ => none

/-- The span of days of the year. -/
def span? : ClosurePhrase → Option DateSpan
  | span first last => some ⟨first.monthDay, last.monthDay⟩
  | _ => none

/-- The rule for the days of every month, if there are any. -/
def monthlyRule? (shifts : Bool) (xs : List ClosurePhrase) : Option ClosureRule :=
  let days := xs.flatMap daysOfMonth
  if days = [] then none else some (.monthly days.toFinset.sort shifts)

/-- The rule for the weekdays of every week, if there are any. -/
def weeklyRule? (shifts : Bool) (xs : List ClosurePhrase) : Option ClosureRule :=
  let days := xs.flatMap weeklyDays
  if days = [] then none else some (.weekly (.ofList days) false shifts false)

/-- The rule for days and spans of days of the year, if there are any. -/
def datedRule? (xs : List ClosurePhrase) : Option ClosureRule :=
  let days := xs.filterMap date?
  let spans := xs.filterMap span?
  if days = [] ∧ spans = [] then none else some (.dated days spans)

/-! ## The passes over phrases -/

/-- The number of the pass that reads the phrase. -/
def turn : ClosurePhrase → Nat
  | span _ _ => 0
  | date _ => 1
  | ordinals _ _ _ => 2
  | monthly _ _ => 3
  | weekdays _ _ => 4

/-- What the passes in front of the `n`-th have left of the phrase. -/
def left (n : Nat) (x : ClosurePhrase) : Text :=
  if x.turn < n then [' '] else x.text

/-! ## Characters -/

/-- The characters of spelled-out weekdays. -/
def weekdayAlphabet : List Char :=
  ['月', '火', '水', '木', '金', '土', '日', '曜', '・']

/-- The characters of phrases that name days of every week or month. -/
def recurringAlphabet : List Char :=
  '毎' :: weekdayAlphabet ++ DayNumeral.alphabet

/-- The characters of phrases other than spans. -/
def plainAlphabet : List Char :=
  ['第', '/'] ++ recurringAlphabet

/-- The characters of phrases. -/
def alphabet : List Char :=
  '~' :: plainAlphabet

theorem spelled_subset (day : Weekday) : [day.kanji, '曜', '日'] ⊆ weekdayAlphabet := by
  cases day <;> decide

theorem weekdays_subset (days : List Weekday) :
    ['・'].intercalate (days.map fun d => [d.kanji, '曜', '日']) ⊆ weekdayAlphabet := by
  refine Text.intercalate_subset (by decide) fun t ht => ?_
  obtain ⟨d, -, rfl⟩ := List.mem_map.1 ht
  exact spelled_subset d

theorem slashDate_subset (d : SlashDate) : d.text ⊆ plainAlphabet :=
  d.text_subset (by decide) (by decide)

theorem text_subset_weekday {x : ClosurePhrase} (hx : 3 < x.turn) : x.text ⊆ weekdayAlphabet := by
  cases x with
  | weekdays days ne => exact weekdays_subset days
  | _ => simp [turn] at hx

theorem text_subset_recurring {x : ClosurePhrase} (hx : 2 < x.turn) :
    x.text ⊆ recurringAlphabet := by
  have hweekday : weekdayAlphabet ⊆ recurringAlphabet := by decide
  have hnumeral : DayNumeral.alphabet ⊆ recurringAlphabet := by decide
  cases x with
  | weekdays days ne => exact List.Subset.trans (weekdays_subset days) hweekday
  | monthly days ne =>
    refine List.append_subset.2 ⟨by decide, Text.intercalate_subset (by decide) fun t ht => ?_⟩
    obtain ⟨d, -, rfl⟩ := List.mem_map.1 ht
    exact List.append_subset.2 ⟨List.Subset.trans d.text_subset hnumeral, by decide⟩
  | _ => simp [turn] at hx

/-- Only a span holds the range glyph. -/
theorem text_subset_plain {x : ClosurePhrase} (hx : x.turn ≠ 0) : x.text ⊆ plainAlphabet := by
  have hrecurring : recurringAlphabet ⊆ plainAlphabet := by decide
  have hweekday : weekdayAlphabet ⊆ plainAlphabet := by decide
  have hordinal : ['1', '2', '3', '4', '5', '一', '二', '三', '四', '五'] ⊆ plainAlphabet := by
    decide
  cases x with
  | weekdays days ne => exact List.Subset.trans (weekdays_subset days) hweekday
  | ordinals numbers ne day =>
    refine List.append_subset.2 ⟨Text.intercalate_subset (by decide) fun t ht => ?_,
      List.Subset.trans (spelled_subset day) hweekday⟩
    obtain ⟨n, -, rfl⟩ := List.mem_map.1 ht
    have hn : n.char ∈ plainAlphabet := hordinal n.char_mem
    exact List.cons_subset.2 ⟨by decide, List.cons_subset.2 ⟨hn, List.nil_subset _⟩⟩
  | monthly days ne => exact List.Subset.trans (text_subset_recurring (by simp [turn])) hrecurring
  | date day => exact slashDate_subset day
  | span first last => exact absurd rfl hx

theorem text_subset (x : ClosurePhrase) : x.text ⊆ alphabet := by
  have hplain : plainAlphabet ⊆ alphabet := List.subset_cons_self _ _
  by_cases hx : x.turn = 0
  · cases x with
    | span first last =>
      refine List.append_subset.2 ⟨List.Subset.trans (slashDate_subset first) hplain, ?_⟩
      exact List.cons_subset_cons _ (slashDate_subset last)
    | weekdays days ne => simp [turn] at hx
    | ordinals numbers ne day => simp [turn] at hx
    | monthly days ne => simp [turn] at hx
    | date day => simp [turn] at hx
  · exact List.Subset.trans (text_subset_plain hx) hplain

theorem left_subset {A : List Char} (n : Nat) {x : ClosurePhrase}
    (hx : n ≤ x.turn → x.text ⊆ A) : x.left n ⊆ ' ' :: A := by
  rw [left]
  split
  · simp
  · next h => exact List.subset_cons_of_subset _ (hx (Nat.le_of_not_lt h))

theorem text_ne_nil (x : ClosurePhrase) : x.text ≠ [] := by
  cases x with
  | weekdays days ne =>
    obtain ⟨d, ds, rfl⟩ := List.exists_cons_of_ne_nil ne
    simp [text]
  | ordinals numbers ne day => simp [text]
  | monthly days ne => simp [text]
  | date day => simp [text, SlashDate.text]
  | span first last => simp [text]

end ClosurePhrase

/-! ## The ends of phrases -/

/-- What stands behind a phrase. -/
def PhraseEnd (rest : Text) : Prop :=
  rest = [] ∨ rest = [' '] ∨ ∃ r, rest = '、' :: r

namespace PhraseEnd

variable {p : Pattern} {rest : Text}

theorem fails (hrest : PhraseEnd rest) (hspace : p.mayStart ' ' = false)
    (hcomma : p.mayStart '、' = false) (he : p.mayBeEmpty = false) : p.Fails rest := by
  obtain rfl | rfl | ⟨r, rfl⟩ := hrest
  · exact fails_nil he
  · exact fails_of_mayStart hspace he _
  · exact fails_of_mayStart hcomma he r

theorem not_digit (hrest : PhraseEnd rest) : rest.head?.any Char.isDigit = false := by
  obtain rfl | rfl | ⟨r, rfl⟩ := hrest <;> rfl

/-- A phrase over an alphabet that a pattern cannot match is passed over if no hit goes on over a
comma. -/
theorem skips {A : List Char} {s : Text} (hrest : PhraseEnd rest)
    (hp : p.isMuteOver ('、' :: ' ' :: A) = true) (hcomma : p.refuses '、' = true) (hs : s ⊆ A) :
    p.Skips s rest := by
  have hsub : s ⊆ ' ' :: A := List.subset_cons_of_subset _ hs
  obtain rfl | rfl | ⟨r, rfl⟩ := hrest
  · exact skips_of_isMuteOver hp (List.subset_cons_of_subset _ hsub)
  · have htext : s ++ [' '] ⊆ '、' :: ' ' :: A :=
      List.append_subset.2 ⟨List.subset_cons_of_subset _ hsub, by simp⟩
    exact (skips_append.1 (skips_of_isMuteOver hp htext)).1
  · exact skips_before hp hcomma hsub r

end PhraseEnd

/-- What is left of the remark about holidays behind the phrases, if there is one. -/
def remarkLeft (shifts : Bool) : Text :=
  if shifts then [' '] else []

theorem phraseEnd_remarkLeft (shifts : Bool) : PhraseEnd (remarkLeft shifts) := by
  cases shifts with
  | false => exact .inl rfl
  | true => exact .inr (.inl rfl)

theorem skips_remarkLeft {p : Pattern} (hspace : p.mayStart ' ' = false) (shifts : Bool) :
    p.Skips (remarkLeft shifts) [] := by
  cases shifts with
  | false => trivial
  | true => exact skips_of_mayStart (by simpa [remarkLeft] using hspace) []

theorem joined_left_subset {A : List Char} (n : Nat)
    (hA : ∀ x : ClosurePhrase, n ≤ x.turn → x.text ⊆ A) (xs : List ClosurePhrase) (shifts : Bool) :
    joined '、' (ClosurePhrase.left n) xs (remarkLeft shifts) ⊆ '、' :: ' ' :: A := by
  have hremark : remarkLeft shifts ⊆ '、' :: ' ' :: A := by
    cases shifts with
    | false => exact List.nil_subset _
    | true => simp [remarkLeft]
  exact joined_subset List.mem_cons_self
    (fun x => List.subset_cons_of_subset _ (ClosurePhrase.left_subset n (hA x))) hremark xs

section Mute

variable {p : Pattern} (hp : p.isMuteOver ('、' :: ' ' :: ClosurePhrase.alphabet) = true) (n : Nat)
  (xs : List ClosurePhrase) (shifts : Bool)

include hp

/-- What phrases do not speak of has no hit in what is left of them. -/
theorem skips_left : p.Skips (joined '、' (ClosurePhrase.left n) xs (remarkLeft shifts)) [] :=
  skips_of_isMuteOver hp (joined_left_subset n (fun x _ => x.text_subset) xs shifts)

theorem occursIn_left :
    p.occursIn (joined '、' (ClosurePhrase.left n) xs (remarkLeft shifts)) = false :=
  occursIn_of_isMuteOver hp (joined_left_subset n (fun x _ => x.text_subset) xs shifts)

theorem blankOut_left :
    p.blankOut (joined '、' (ClosurePhrase.left n) xs (remarkLeft shifts)) =
      joined '、' (ClosurePhrase.left n) xs (remarkLeft shifts) :=
  blankOut_of_isMuteOver hp (joined_left_subset n (fun x _ => x.text_subset) xs shifts)

end Mute

/-! ## Passes -/

section Pass

variable {α : Type} {p : Pattern} {read : Option Char → Hit → Option α}
  {ms : ClosurePhrase → List α} {n : Nat} {Ends : Text → Prop}

/-- A pass that reads its own phrases and passes over those whose turn comes later has them as the
next pass meets them. -/
theorem reads_left (hspace : p.mayStart ' ' = false)
    (hother : ∀ x : ClosurePhrase, x.turn ≠ n → ms x = [])
    (hown : ∀ (x : ClosurePhrase) before rest, x.turn = n → Ends rest →
      p.Reads read before x.text rest (ms x) [' '])
    (hlater : ∀ (x : ClosurePhrase) before rest, n < x.turn → Ends rest →
      p.Reads read before x.text rest [] x.text)
    (x : ClosurePhrase) (before : Option Char) (rest : Text) (hrest : Ends rest) :
    p.Reads read before (x.left n) rest (ms x) (x.left (n + 1)) := by
  rcases Nat.lt_trichotomy x.turn n with hx | hx | hx
  · rw [hother x (Nat.ne_of_lt hx), ClosurePhrase.left, if_pos hx, ClosurePhrase.left,
      if_pos (Nat.lt_succ_of_lt hx)]
    exact .of_skips (skips_of_mayStart (by simpa using hspace) rest)
  · rw [ClosurePhrase.left, if_neg (by omega), ClosurePhrase.left, if_pos (by omega)]
    exact hown x before rest hx hrest
  · rw [hother x (Nat.ne_of_gt hx), ClosurePhrase.left, if_neg (by omega), ClosurePhrase.left,
      if_neg (by omega)]
    exact hlater x before rest hx hrest

/-- What a pass reads of each phrase alone it reads of all of them in their order. -/
theorem extract_left (hspace : p.mayStart ' ' = false) (hcomma : p.mayStart '、' = false)
    (hread : ∀ (x : ClosurePhrase) before rest, PhraseEnd rest →
      p.Reads read before (x.left n) rest (ms x) (x.left (n + 1)))
    (xs : List ClosurePhrase) (shifts : Bool) :
    p.extract read (joined '、' (ClosurePhrase.left n) xs (remarkLeft shifts)) =
      (xs.flatMap ms, joined '、' (ClosurePhrase.left (n + 1)) xs (remarkLeft shifts)) :=
  extract_joined PhraseEnd (phraseEnd_remarkLeft shifts) (fun _ _ => .inr (.inr ⟨_, rfl⟩)) hcomma
    (skips_remarkLeft hspace shifts) hread xs

/-- What was read and makes sense, of each phrase in turn. -/
theorem filterMap_id_flatMap (f : ClosurePhrase → Option α) (xs : List ClosurePhrase) :
    (xs.flatMap fun x => (f x).toList.map some).filterMap id = xs.filterMap f := by
  induction xs with
  | nil => rfl
  | cons x xs ih =>
    rw [List.flatMap_cons, List.filterMap_append, ih, List.filterMap_cons]
    cases f x <;> rfl

end Pass

end OpeningHours
