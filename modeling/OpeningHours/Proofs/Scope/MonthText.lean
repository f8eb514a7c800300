import Mathlib.Data.List.Basic
import OpeningHours.Proofs.Pattern.Digits
import OpeningHours.Scope.Months

/-!
# Ranges of months as they are written

`MonthSpan` is a range of existing months of the form `4月~10月`. In front of a text without digits
it is read as that range and blanked out (`extractMonths_append`); a text without digits names no
months (`extractMonths_of_no_digit`).
-/

namespace OpeningHours

open Pattern

/-- A range between two months, as it is written. -/
structure MonthSpan where
  first : ShortNumeral
  last : ShortNumeral
  isMonth_first : MonthRange.isMonth first.value = true
  isMonth_last : MonthRange.isMonth last.value = true

/-! ## Texts without digits -/

variable {t rest : Text}

theorem mayStart_monthRange (c : Char) : Wording.monthRange.mayStart c = c.isDigit := by
  simp [Wording.monthRange]

theorem mayStart_oneMonth (c : Char) : Wording.oneMonth.mayStart c = c.isDigit := by
  simp [Wording.oneMonth]

theorem extractMonths_of_no_digit (ht : ∀ c ∈ t, c.isDigit = false) :
    extractMonths t = ([], t) := by
  have hrange : Wording.monthRange.Skips t [] :=
    skips_of_mayStart (fun c hc => by rw [mayStart_monthRange, ht c hc]) []
  have hmonth : Wording.oneMonth.Skips t [] :=
    skips_of_mayStart (fun c hc => by rw [mayStart_oneMonth, ht c hc]) []
  simp [extractMonths, extract_of_skips hrange, extract_of_skips hmonth]

namespace MonthSpan

/-- The range as it is written. -/
def text (s : MonthSpan) : Text :=
  s.first.text ++ '月' :: '~' :: (s.last.text ++ ['月'])

/-- The range that is meant. -/
def range (s : MonthSpan) : MonthRange :=
  ⟨s.first.value, s.last.value⟩

/-! ## The range is read -/

/-- The hit of a range of months in front of a rest. -/
def hit (s : MonthSpan) (rest : Text) : Hit :=
  ⟨s.text, [(2, s.last.text), (1, s.first.text)], rest⟩

theorem monthRange?_hit (s : MonthSpan) (rest : Text) :
    (s.hit rest).monthRange? = some s.range := by
  have hfirst : (s.hit rest).number 1 = s.first.value := s.first.value_text
  have hlast : (s.hit rest).number 2 = s.last.value := s.last.value_text
  rw [Hit.monthRange?, hfirst, hlast, MonthRange.ofMonths?, s.isMonth_first, s.isMonth_last]
  rfl

theorem exists_digit (s : MonthSpan) (rest : Text) :
    ∃ (d : Digit) (r : Text), s.last.text ++ '月' :: rest = d.char :: r := by
  cases s.last with
  | one c => exact ⟨c, _, rfl⟩
  | two c c' => exact ⟨c, _, rfl⟩

/-- **A range of months is read where it stands**, unless `末` or `まで` follows. -/
theorem prefers_monthRange (s : MonthSpan) {rest : Text} (hend : (word "末").Fails rest)
    (huntil : (word "まで").Fails rest) :
    Wording.monthRange.Prefers (s.text ++ rest) (s.hit rest) := by
  obtain ⟨d, u, hd⟩ := s.exists_digit rest
  have hfirst : (keep 1 oneOrTwoDigits).Prefers
      (s.first.text ++ '月' :: '~' :: (s.last.text ++ '月' :: rest)) _ :=
    (prefers_oneOrTwoDigits s.first rfl).keep 1
  have hmonth := (prefers_word "月" ('~' :: (s.last.text ++ '月' :: rest))).opt
  have hgap : blanks.Prefers ('~' :: (s.last.text ++ '月' :: rest)) _ := prefers_blanks_nothing rfl
  have htilde := prefers_word "~" (s.last.text ++ '月' :: rest)
  have hnoBlank : blanks.Prefers (s.last.text ++ '月' :: rest)
      (.nothing (s.last.text ++ '月' :: rest)) := by
    rw [hd]
    exact (fails_of_digit (p := one Text.isBlank) (by decide) rfl d u).star
  have hlast : (keep 2 oneOrTwoDigits).Prefers (s.last.text ++ '月' :: rest) _ :=
    (prefers_oneOrTwoDigits s.last rfl).keep 2
  have hmonth' := prefers_word "月" rest
  have hrange := (((((((hfirst.seq hmonth).seq hgap).seq htilde).seq hnoBlank).seq hlast).seq
    hmonth').seq hend.opt).seq huntil.opt
  have htext : s.text ++ rest = s.first.text ++ '月' :: '~' :: (s.last.text ++ '月' :: rest) := by
    simp [text]
  have htaken : s.text =
      s.first.text ++ ['月'] ++ [] ++ ['~'] ++ [] ++ s.last.text ++ ['月'] ++ [] ++ [] := by
    simp [text]
  rw [htext, hit, htaken]
  exact hrange

end MonthSpan

/-- **A range of months in front of a text without digits** is the one range that is read. -/
theorem extractMonths_append (s : MonthSpan) (hrest : ∀ c ∈ rest, c.isDigit = false)
    (hend : (word "末").Fails rest) (huntil : (word "まで").Fails rest) :
    extractMonths (s.text ++ rest) = ([s.range], ' ' :: rest) := by
  have hne : s.text ≠ [] := by simp [MonthSpan.text]
  have hhit : Wording.monthRange.Reads (fun _ h => some h.monthRange?) none s.text rest
      [some s.range] [' '] :=
    .of_hit hne (s.prefers_monthRange hend huntil) (congrArg some (s.monthRange?_hit rest))
  have hrange : Wording.monthRange.Skips rest [] :=
    skips_of_mayStart (fun c hc => by rw [mayStart_monthRange, hrest c hc]) []
  have hmonth : Wording.oneMonth.Skips (' ' :: rest) [] := by
    apply skips_of_mayStart
    intro c hc
    rw [mayStart_oneMonth]
    rcases List.mem_cons.1 hc with rfl | hc
    · rfl
    · exact hrest c hc
  have hhit' : Wording.monthRange.Reads (fun _ h => some h.monthRange?) none s.text (rest ++ [])
      [some s.range] [' '] := by rwa [List.append_nil]
  have hread := extract_of_reads (hhit'.append (.of_skips hrange))
  rw [extractMonths, hread]
  simp [extract_of_skips hmonth]

end OpeningHours
