import Mathlib.Data.List.Basic
import OpeningHours.Proofs.Scope.DayList

/-!
# Phrases for weekdays

`DayPhrase` is a phrase that names weekdays and says nothing about holidays: a list of weekdays with
dots, a range from one weekday to another, or one of the words for the days of work and for the
weekend. In front of a space it is read as the weekdays that it names
(**`DayPhrase.extractDays_text`**).
-/

namespace OpeningHours

open Pattern

/-- A phrase that names weekdays. -/
inductive DayPhrase where
  | list (days : List Weekday) (ne : days ≠ [])
  | range (first last : Weekday)
  | workdays
  | weekend

namespace DayPhrase

/-- The phrase as it is written. -/
def text : DayPhrase → Text
  | list days _ => ['・'].intercalate (days.map fun d => [d.kanji])
  | range first last => [first.kanji, '~', last.kanji]
  | workdays => "平日".toList
  | weekend => "週末".toList

/-- The weekdays that the phrase names. -/
def days : DayPhrase → WeekdaySet
  | list days _ => .ofList days
  | range first last => .range first last
  | workdays => .workdays
  | weekend => .weekend

theorem isEmpty_days (q : DayPhrase) : q.days.isEmpty = false := by
  cases q with
  | list days ne => exact WeekdaySet.isEmpty_ofList ne
  | range first last =>
    exact WeekdaySet.isEmpty_of_contains (d := first) (by simp [days, WeekdaySet.range])
  | workdays => rfl
  | weekend => rfl

/-! ## Ranges of weekdays -/

/-- The characters of a range of weekdays. -/
def rangeAlphabet : List Char :=
  ['月', '火', '水', '木', '金', '土', '日', '~', ' ']

theorem prefers_weekdayRange (first last : Weekday) :
    Wording.weekdayRange.Prefers [first.kanji, '~', last.kanji, ' ']
      ⟨[first.kanji, '~', last.kanji], [(2, [last.kanji]), (1, [first.kanji])], [' ']⟩ := by
  have hkanji (slot : Slot) (d : Weekday) (rest : Text) :
      (keep slot (one Weekday.isKanji)).Prefers (d.kanji :: rest)
        ⟨[d.kanji], [(slot, [d.kanji])], rest⟩ :=
    (prefers_one (by simp [Weekday.isKanji]) rest).keep slot
  have hnoEnding (rest : Text) : Wording.weekdayEnding.Fails ('~' :: rest) :=
    fails_of_mayStart (by decide) rfl rest
  have hnoEnding' : Wording.weekdayEnding.Fails [' '] := fails_of_mayStart (by decide) rfl []
  have hgap (c : Char) (rest : Text) (hc : Text.isBlank c = false) :
      blanks.Prefers (c :: rest) (.nothing (c :: rest)) := prefers_blanks_nothing hc
  have hlastGap : Text.isBlank last.kanji = false := by cases last <;> rfl
  have hfirst := (hkanji 1 first ['~', last.kanji, ' ']).seq (hnoEnding [last.kanji, ' ']).opt
  have htilde := prefers_word "~" [last.kanji, ' ']
  have hlast := (hkanji 2 last [' ']).seq hnoEnding'.opt
  exact (((hfirst.seq (hgap '~' [last.kanji, ' '] rfl)).seq htilde).seq
    (hgap last.kanji [' '] hlastGap)).seq hlast

/-- A pass that takes the range leaves spaces. -/
theorem extract_weekdayRange {α : Type} (first last : Weekday) {a : α}
    {read : Option Char → Hit → Option α}
    (hread : read none ⟨[first.kanji, '~', last.kanji],
      [(2, [last.kanji]), (1, [first.kanji])], [' ']⟩ = some a) :
    Wording.weekdayRange.extract read [first.kanji, '~', last.kanji, ' '] =
      ([a], [' ', ' ']) := by
  have hhit : Wording.weekdayRange.Reads read none [first.kanji, '~', last.kanji] ([' '] ++ [])
      [a] [' '] := .of_hit (by simp) (prefers_weekdayRange first last) hread
  have hspace : Wording.weekdayRange.Reads read ([first.kanji, '~', last.kanji].getLast?.or none)
      [' '] [] [] [' '] := .of_skips (skips_of_all (by decide) [])
  have hboth := hhit.append hspace
  exact extract_of_reads hboth

theorem weekdayRanges_range (first last : Weekday) :
    DayPass.weekdayRanges [first.kanji, '~', last.kanji, ' '] =
      ([.weekdays (.range first last)], [' ', ' ']) := by
  have hfollow : mayFollowWeekday ' ' = true := by decide
  rw [DayPass.weekdayRanges]
  refine extract_weekdayRange first last ?_
  simp [standsAlone, hfollow, Hit.weekday?, Hit.part, Hit.part?, List.lookup_cons]

theorem extractDays_range (first last : Weekday) :
    extractDays [first.kanji, '~', last.kanji, ' '] =
      (some { weekdays := .range first last }, [' ', ' ']) := by
  have hkanji (d : Weekday) : d.kanji ∈ rangeAlphabet := by cases d <;> decide
  have hsub : [first.kanji, '~', last.kanji, ' '] ⊆ rangeAlphabet :=
    List.cons_subset.2 ⟨hkanji first, List.cons_subset.2 ⟨by decide,
      List.cons_subset.2 ⟨hkanji last, by decide⟩⟩⟩
  have hexcept : Wording.exceptHolidays.isMuteOver rangeAlphabet = true := by decide
  have honly : Wording.onlySundaysAndHolidays.isMuteOver rangeAlphabet = true := by decide
  have hgroup : Wording.dayGroup.isMuteOver rangeAlphabet = true := by decide
  have hholiday : Wording.holiday.isMuteOver rangeAlphabet = true := by decide
  have hgroups : DayPass.groups [first.kanji, '~', last.kanji, ' '] = ([], _) :=
    extract_of_isMuteOver _ hgroup hsub
  have hsingles : DayPass.singleWeekdays [' ', ' '] = ([], [' ', ' ']) := by decide
  have hset (s : WeekdaySet) : WeekdaySet.empty.union s = s :=
    WeekdaySet.ext_contains fun d => by simp
  simp only [extractDays, dayPasses, readDays, DayPass.always,
    extract_of_isMuteOver _ hexcept hsub, extract_of_isMuteOver _ honly hsub, hgroups,
    extract_of_isMuteOver _ hholiday hsub, weekdayRanges_range, hsingles]
  simp [DayScope.ofMentions?, DayScope.add, hset]

/-! ## Reading a phrase -/

/-- **A phrase is read as the weekdays that it names.** -/
theorem extractDays_text (q : DayPhrase) :
    ∃ rest, extractDays (q.text ++ [' ']) = (some { weekdays := q.days }, rest) ∧
      Text.isSilent rest = true := by
  cases q with
  | list days ne =>
    let l : DayList := ⟨days, false, .inl ne⟩
    obtain ⟨rest, hdays, hrest⟩ := l.extractDays_text [] (by simp)
    have htext : l.text = (list days ne).text := by
      simp [l, DayList.text, DayList.items, text, List.map_map, Function.comp_def, DayToken.text]
    rw [htext] at hdays
    exact ⟨rest, hdays, hrest⟩
  | range first last => exact ⟨[' ', ' '], extractDays_range first last, by decide⟩
  | workdays => exact ⟨[' ', ' '], by decide, by decide⟩
  | weekend => exact ⟨[' ', ' '], by decide, by decide⟩

end DayPhrase

end OpeningHours
