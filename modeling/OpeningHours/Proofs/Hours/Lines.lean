import Mathlib.Data.List.Basic
import OpeningHours.Hours.Reading
import OpeningHours.Proofs.Pattern.Continued
import OpeningHours.Proofs.Text.NormalForm
import OpeningHours.Proofs.Text.Pieces

/-!
# Statements on lines of their own

A line break ends a statement, and every statement is read under a scope of its own. So two texts
with ranges, one on the line after the other, are read as each of them alone, unless the whole text
is settled otherwise: by being open around the clock or by hotel times. A bracket that the first
text leaves open would swallow the line break.

* `TimedLines`: two texts that can be read line by line;
* `saysAroundTheClock_line`: what the whole text says about the clock, a line says;
* `readStatements_line`: the statements of both lines;
* **`ofText_lines`**: windows and notes of the first line, then those of the second.
-/

namespace OpeningHours

open Pattern

/-- Two texts with time ranges of which the first leaves no bracket open, and whose lines together
are neither a text about being open around the clock nor name hotel times. -/
structure TimedLines (a b : Text) : Prop where
  range_first : Wording.timeRange.occursIn (Text.normalize a) = true
  range_second : Wording.timeRange.occursIn (Text.normalize b) = true
  not_aroundTheClock :
    OpeningTimes.saysAroundTheClock (Text.normalize (a ++ '\n' :: b)) = false
  no_checkIn : Wording.checkIn.occursIn (Text.normalize (a ++ '\n' :: b)) = false
  no_checkOut : Wording.checkOut.occursIn (Text.normalize (a ++ '\n' :: b)) = false
  brackets_closed : (Text.normalize a).foldl Text.depthAfter 0 = 0

theorem isWordCharacter_line : Text.isWordCharacter '\n' = false := by
  decide +kernel

theorem any_isWordCharacter_line (r : Text) :
    (List.head? ('\n' :: r)).any Text.isWordCharacter = false := by
  rw [List.head?_cons, Option.any_some, isWordCharacter_line]

/-- What does not occur in two lines together occurs in neither of them. -/
theorem occursIn_of_lines {p : Pattern} (hend : p.ignoresEnd = true)
    (hstart : p.ignoresStart = true) {s r : Text} (h : p.occursIn (s ++ '\n' :: r) = false) :
    p.occursIn s = false ∧ p.occursIn r = false := by
  constructor
  · by_contra hs
    rw [Bool.not_eq_false] at hs
    have := occursIn_append_left hend (any_isWordCharacter_line r) hs
    rw [h] at this
    exact Bool.false_ne_true this
  · by_contra hr
    rw [Bool.not_eq_false] at hr
    have := occursIn_append_right hstart isWordCharacter_line hr s
    rw [h] at this
    exact Bool.false_ne_true this

namespace OpeningTimes

/-- Lines together say that the facility never closes exactly if one of them does. -/
theorem saysAroundTheClock_line (s r : Text) : saysAroundTheClock (s ++ '\n' :: r) =
    (saysAroundTheClock s || saysAroundTheClock r) := by
  rw [saysAroundTheClock, findAll_append_cons (by decide) (by decide) (by decide)
    isWordCharacter_line, List.any_append, List.any_map]
  rfl

/-- A text with ranges that is not settled as a whole is read as its statements. -/
theorem ofText_of_range {t : Text}
    (hrange : Wording.timeRange.occursIn (Text.normalize t) = true)
    (hclock : saysAroundTheClock (Text.normalize t) = false)
    (hcheckIn : Wording.checkIn.occursIn (Text.normalize t) = false)
    (hcheckOut : Wording.checkOut.occursIn (Text.normalize t) = false) :
    (ofText (some t)).windows = (readStatements (Text.normalize t)).1 ∧
      (ofText (some t)).notes = (readStatements (Text.normalize t)).2 := by
  have hne : (Text.normalize t).isEmpty = false := by
    simpa using ne_nil_of_occursIn hrange
  have hwithout : withoutHotelTimes (Text.normalize t) = Text.normalize t := by
    rw [withoutHotelTimes, blankOut_of_occursIn_eq_false hcheckIn,
      blankOut_of_occursIn_eq_false hcheckOut]
  simp only [ofText, readNormal, hne, hclock, hrange, Bool.not_true, Bool.false_and, if_false,
    Bool.false_eq_true, withStatements, hwithout, and_self]

/-- **The statements of two lines** are those of the first and those of the second. -/
theorem readStatements_line {s : Text} (hs : s.foldl Text.depthAfter 0 = 0) (r : Text) :
    readStatements (s ++ '\n' :: r) =
      ((readStatements s).1 ++ (readStatements r).1,
        (readStatements s).2 ++ (readStatements r).2) := by
  have hmark : Text.cutsAt isStatementMark 0 '\n' = true := by decide
  simp only [readStatements, Text.splitTopLevel_append_cons hs hmark, List.map_append,
    List.flatMap_append]

/-- **Statements on lines of their own are independent.** The windows of both lines are those of the
first followed by those of the second, and so are the notes. -/
theorem ofText_lines {a b : Text} (h : TimedLines a b) :
    (ofText (some (a ++ '\n' :: b))).windows =
        (ofText (some a)).windows ++ (ofText (some b)).windows ∧
      (ofText (some (a ++ '\n' :: b))).notes =
        (ofText (some a)).notes ++ (ofText (some b)).notes := by
  obtain ⟨hrange, hrange', hclock, hcheckIn, hcheckOut, hclosed⟩ := h
  have hlines := Text.normalize_line (ne_nil_of_occursIn hrange) (ne_nil_of_occursIn hrange')
  rw [hlines] at hclock hcheckIn hcheckOut
  have hneither := hclock
  rw [saysAroundTheClock_line] at hneither
  obtain ⟨hfirst, hsecond⟩ := Bool.or_eq_false_iff.1 hneither
  obtain ⟨hcheckIn₁, hcheckIn₂⟩ := occursIn_of_lines (by decide) (by decide) hcheckIn
  obtain ⟨hcheckOut₁, hcheckOut₂⟩ := occursIn_of_lines (by decide) (by decide) hcheckOut
  have hboth : Wording.timeRange.occursIn (Text.normalize (a ++ '\n' :: b)) = true := by
    rw [hlines]
    exact occursIn_append_left (by decide) (any_isWordCharacter_line _) hrange
  rw [← hlines] at hclock hcheckIn hcheckOut
  obtain ⟨hwindows, hnotes⟩ := ofText_of_range hboth hclock hcheckIn hcheckOut
  obtain ⟨hwindows₁, hnotes₁⟩ := ofText_of_range hrange hfirst hcheckIn₁ hcheckOut₁
  obtain ⟨hwindows₂, hnotes₂⟩ := ofText_of_range hrange' hsecond hcheckIn₂ hcheckOut₂
  rw [hwindows, hnotes, hwindows₁, hnotes₁, hwindows₂, hnotes₂, hlines, readStatements_line hclosed]
  exact ⟨rfl, rfl⟩

/-- Mondays on one line, holidays on the next. -/
theorem ofText_mondays_holidays :
    TimedLines "月 9:00~17:00(受付は16:00まで)".toList "10:00~12:00(祝日)".toList ∧
      (ofText (some ("月 9:00~17:00(受付は16:00まで)".toList ++
          '\n' :: "10:00~12:00(祝日)".toList))).windows =
        (ofText (some "月 9:00~17:00(受付は16:00まで)".toList)).windows ++
          (ofText (some "10:00~12:00(祝日)".toList)).windows := by
  have hlines : TimedLines "月 9:00~17:00(受付は16:00まで)".toList "10:00~12:00(祝日)".toList := by
    constructor <;> decide +kernel
  exact ⟨hlines, (ofText_lines hlines).1⟩

end OpeningTimes

end OpeningHours
