import Mathlib.Data.List.Basic
import OpeningHours.Proofs.Hours.PlainText
import OpeningHours.Proofs.Hours.RangeText

/-!
# Segments with one range

A segment that holds one range of clock times, qualifiers in front of it and at most a parenthetical
behind it gives one window: that of the range, under the scope that the qualifiers have entered
(**`Segment.read_range`**). If one of the times does not exist the segment becomes a note.
-/

namespace OpeningHours

open Pattern

variable {scope : Scope} {t rest : Text} {r : ColonRange} {parenthetical : Option Text}

theorem ColonRange.text_subset (r : ColonRange) : r.text ⊆ segmentAlphabet := by
  have hdigits : asciiDigits ⊆ segmentAlphabet := by decide
  have hstart := r.start.text_subset hdigits (by decide)
  have hfinish := r.finish.text_subset hdigits (by decide)
  exact List.append_subset.2 ⟨hstart, List.cons_subset.2 ⟨by decide, hfinish⟩⟩

theorem ColonRange.tidy_text (r : ColonRange) : Text.Tidy r.text :=
  .of_subset (by decide) r.text_subset (by simp [text])

theorem readRanges_nil (scope : Scope) : readRanges scope [] = { scope } := by
  have hfind : Wording.timeRange.find? [] = none := rfl
  rw [readRanges]
  split
  · rfl
  · next h => simp [hfind] at h

theorem Qualifiers.extract_eq {u v : Text} {months : List MonthRange} {days : Option DayScope}
    (hmonths : extractMonths t = (months, u)) (hdays : extractDays u = (days, v)) :
    Qualifiers.extract t = (⟨months, days⟩, v) := by
  simp only [Qualifiers.extract, hmonths, hdays]

/-- The qualifiers in front of a range, where they leave no note. -/
theorem readBefore_of_plain (ht : t ⊆ plainAlphabet)
    (hsilent : Text.remainder? (Qualifiers.extract t).2 = none) (scope : Scope) :
    scope.readBefore t = (scope.enter (Qualifiers.extract t).1, []) := by
  rw [Scope.readBefore, closureMention_of_plain ht]
  simp [hsilent]

/-- What one range behind its qualifiers is read as. -/
theorem readRanges_range (ht : t ⊆ plainAlphabet)
    (hsilent : Text.remainder? (Qualifiers.extract t).2 = none)
    (hskip : Wording.timeRange.Skips t (r.text ++ rest)) (huntil : (word "まで").Fails rest)
    (hafter : afterRange rest = (parenthetical, [])) (scope : Scope) :
    readRanges scope (t ++ (r.text ++ rest)) =
      let entered := scope.enter (Qualifiers.extract t).1
      match r.window? with
      | some w => { windows := [finishWindow entered [] parenthetical w], scope := entered }
      | none => { stray := [r.text], scope := entered } := by
  have hne : (r.hit rest).taken ≠ [] := by simp [ColonRange.hit, ColonRange.text]
  have hfind : Wording.timeRange.find? (t ++ (r.text ++ rest)) = some (t, r.hit rest) :=
    find?_of_skips hskip (r.prefers_timeRange huntil) hne
  rw [readRanges]
  split
  · next h => simp [hfind] at h
  · next skipped h heq =>
    obtain ⟨rfl, rfl⟩ : t = skipped ∧ r.hit rest = h := by simpa [hfind] using heq
    have hrest : afterRange (r.hit rest).rest = (parenthetical, []) := hafter
    simp only [readBefore_of_plain ht hsilent, hrest, readRanges_nil, r.window?_hit]
    cases r.window? with
    | none => rfl
    | some w => rfl

/-- Closing a reading of one window changes nothing. -/
theorem close_singleton (w : TimeWindow) (scope : Scope) :
    RangeReading.close { windows := [w], scope } none = [w] := by
  have htrailer : Trailer.read [] = {} := rfl
  simp [RangeReading.close, htrailer, noteLast, TimeWindow.addNotes, TimeWindow.qualify]

/-- **A segment with one range** gives the window of the range under its qualifiers. -/
theorem Segment.read_range (hplain : t ++ (r.text ++ rest) ⊆ plainAlphabet)
    (htidy : Text.Tidy (t ++ (r.text ++ rest)))
    (hsilent : Text.remainder? (Qualifiers.extract t).2 = none)
    (hskip : Wording.timeRange.Skips t (r.text ++ rest)) (huntil : (word "まで").Fails rest)
    (hafter : afterRange rest = (parenthetical, [])) (scope : Scope) :
    Segment.read scope (t ++ (r.text ++ rest)) =
      let entered := scope.enter (Qualifiers.extract t).1
      match r.window? with
      | some w => (.windows [finishWindow entered [] parenthetical w], entered)
      | none => (.note (t ++ (r.text ++ rest)), entered) := by
  have ht : t ⊆ plainAlphabet := fun c hc => hplain (List.mem_append_left _ hc)
  have hne : (r.hit rest).taken ≠ [] := by simp [ColonRange.hit, ColonRange.text]
  have hoccurs : Wording.timeRange.occursIn (t ++ (r.text ++ rest)) = true :=
    occursIn_of_skips hskip (r.prefers_timeRange huntil) hne
  have hsome : (t ++ (r.text ++ rest)).isEmpty = false := by simpa using htidy.ne_nil
  have hranges := readRanges_range ht hsilent hskip huntil hafter scope
  simp only [Segment.read, htidy.trim, hsome, extractLastAdmission_of_plain hplain, hoccurs,
    Segment.readTimed, hranges]
  cases r.window? with
  | none => rfl
  | some w =>
    simp only [close_singleton]
    rfl

end OpeningHours
