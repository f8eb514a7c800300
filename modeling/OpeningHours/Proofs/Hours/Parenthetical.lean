import Mathlib.Data.List.Basic
import OpeningHours.Proofs.Hours.LateHours
import OpeningHours.Proofs.Hours.Lines
import OpeningHours.Proofs.Text.Parenthetical

/-!
# What stands in parentheses behind a range

A parenthetical belongs to the range in front of it: `9:00~17:00(月曜休館、12月は10:00~16:00)` is one
statement with one segment and one window. Separators and line breaks in the parentheses cut
nothing, a range in them is passed over, and a last admission in them is taken out with the
parentheses left standing. What is inside qualifies the window or becomes a note of it, and has no
say in its times.

* `TimeWindow.SameTimes`: two windows start and end alike;
* `exists_extractLastAdmission_parenthetical`: a last admission leaves the parentheses;
* `Segment.exists_window`: a segment with one range gives one window with the times of the range;
* **`ParenthesizedRange.windows_eq`**: the range alone and the range with its parenthetical have one
  window each, and these have the same times.
-/

namespace OpeningHours

open Pattern

/-! ## Windows with the same times -/

namespace TimeWindow

/-- The windows start and end alike; their days, months and notes are their own. -/
structure SameTimes (v w : TimeWindow) : Prop where
  start : v.start = w.start
  finish : v.finish = w.finish
  crossesMidnight : v.crossesMidnight = w.crossesMidnight

variable {u v w : TimeWindow}

theorem SameTimes.symm (h : v.SameTimes w) : w.SameTimes v :=
  ⟨h.start.symm, h.finish.symm, h.crossesMidnight.symm⟩

theorem SameTimes.trans (huv : u.SameTimes v) (hvw : v.SameTimes w) : u.SameTimes w :=
  ⟨huv.start.trans hvw.start, huv.finish.trans hvw.finish,
    huv.crossesMidnight.trans hvw.crossesMidnight⟩

theorem sameTimes_onDays (w : TimeWindow) (days : DayScope) : (w.onDays days).SameTimes w :=
  ⟨rfl, rfl, rfl⟩

theorem sameTimes_qualify (w : TimeWindow) (q : Qualifiers) : (w.qualify q).SameTimes w := by
  have hmonths : (if q.months.isEmpty then w else { w with months := q.months }).SameTimes w := by
    split <;> exact ⟨rfl, rfl, rfl⟩
  rw [qualify]
  cases q.days with
  | none => exact hmonths
  | some days => exact (sameTimes_onDays _ days).trans hmonths

theorem sameTimes_addNotes (w : TimeWindow) (notes : List Text) :
    (w.addNotes notes).SameTimes w :=
  ⟨rfl, rfl, rfl⟩

theorem sameTimes_apply (w : TimeWindow) (scope : Scope) : (scope.apply w).SameTimes w := by
  rw [Scope.apply]
  cases scope.days with
  | none => exact ⟨rfl, rfl, rfl⟩
  | some days => exact (sameTimes_onDays _ days).trans ⟨rfl, rfl, rfl⟩

/-- Neither the scope of a range nor its parenthetical changes the times. -/
theorem sameTimes_finishWindow (w : TimeWindow) (scope : Scope) (notes : List Text)
    (parenthetical : Option Text) :
    (finishWindow scope notes parenthetical w).SameTimes w := by
  have hscope := w.sameTimes_apply scope
  cases parenthetical with
  | none => exact (sameTimes_addNotes _ _).trans hscope
  | some inside =>
    exact (sameTimes_addNotes _ _).trans ((sameTimes_qualify _ _).trans hscope)

end TimeWindow

/-- Closing a reading of one window changes no times. -/
theorem exists_close_singleton (w : TimeWindow) (scope : Scope) (lastAdmission : Option ClockTime) :
    ∃ v, RangeReading.close { windows := [w], scope } lastAdmission = [v] ∧ v.SameTimes w := by
  rw [RangeReading.close]
  generalize Trailer.read _ = tail
  have htail := w.sameTimes_qualify tail.qualifiers
  exact ⟨_, rfl, htail.start, htail.finish, htail.crossesMidnight⟩

/-! ## Segments -/

variable {r : ColonRange} {s rest : Text} {parenthetical : Option Text}
  {lastAdmission : Option ClockTime} {w : TimeWindow}

/-- **A segment with one range gives one window with the times of the range**, if a last admission
leaves the range at the start and nothing but a parenthetical behind it. -/
theorem Segment.exists_window (htrim : Text.trim s = s)
    (hadmission : extractLastAdmission s = (lastAdmission, r.text ++ rest))
    (huntil : (word "まで").Fails rest) (hafter : afterRange rest = (parenthetical, []))
    (hw : r.window? = some w) :
    ∃ v scope, Segment.read {} s = (.windows [v], scope) ∧ v.SameTimes w := by
  have hne : (r.hit rest).taken ≠ [] := by simp [ColonRange.hit, ColonRange.text]
  have hsome : s.isEmpty = false := by
    by_contra hempty
    obtain rfl : s = [] := by simpa using hempty
    have hnil : extractLastAdmission [] = (none, []) := rfl
    rw [hnil] at hadmission
    exact absurd (congrArg Prod.snd hadmission) (by simp [ColonRange.text])
  have hoccurs : Wording.timeRange.occursIn (r.text ++ rest) = true :=
    occursIn_of_skips (s := []) trivial (r.prefers_timeRange huntil) hne
  have hranges := readRanges_range (t := []) (r := r) (List.nil_subset _) (by decide) trivial huntil
    hafter {}
  rw [List.nil_append, hw] at hranges
  dsimp only at hranges
  generalize Scope.enter {} (Qualifiers.extract []).1 = entered at hranges
  obtain ⟨v, hclose, hv⟩ :=
    exists_close_singleton (finishWindow entered [] parenthetical w) entered lastAdmission
  refine ⟨v, entered, ?_, hv.trans (w.sameTimes_finishWindow _ _ _)⟩
  simp only [Segment.read, htrim, hsome, hadmission, hoccurs, Segment.readTimed, hranges, hclose,
    Bool.false_eq_true, if_false, if_true, List.isEmpty_cons]

/-! ## Last admissions in a parenthetical -/

/-- **A last admission leaves the parentheses**: no hit starts in the range or reaches past the
closing one. -/
theorem exists_extractLastAdmission_parenthetical (r : ColonRange) {y : Text}
    (hy : y.NoBrackets) :
    ∃ (lastAdmission : Option ClockTime) (z : Text), z.NoBrackets ∧
      extractLastAdmission (r.text ++ '(' :: (y ++ [')'])) =
        (lastAdmission, r.text ++ '(' :: (z ++ [')'])) := by
  let read : Option Char → Hit → Option ClockTime := fun _ h => h.lastAdmission?
  have halphabet : r.text ++ ['('] ⊆ '(' :: segmentAlphabet := by
    refine List.append_subset.2 ⟨List.subset_cons_of_subset _ r.text_subset, ?_⟩
    exact List.cons_subset.2 ⟨List.mem_cons_self, List.nil_subset _⟩
  have hfront : Wording.lastAdmission.Reads read none (r.text ++ ['(']) (y ++ [')'] ++ []) []
      (r.text ++ ['(']) := .of_skips (skips_of_subset (by decide) halphabet _)
  have hhalts : Wording.lastAdmission.Halts [')'] := halts_of_refuses (by decide) []
  obtain ⟨times, z, hinside⟩ := hhalts.reads read ((r.text ++ ['(']).getLast?.or none) y
  have hend : Wording.lastAdmission.Reads read (y.getLast?.or ((r.text ++ ['(']).getLast?.or none))
      [')'] [] [] [')'] := .of_skips (skips_of_all (by decide) [])
  have hall := extract_of_reads (hfront.append (hinside.append hend))
  refine ⟨times.getLast?, z, hy.of_mem fun c hc => hinside.mem_left hc, ?_⟩
  have htext : r.text ++ '(' :: (y ++ [')']) = r.text ++ ['('] ++ (y ++ [')']) := by simp
  rw [extractLastAdmission, htext]
  simp only [read, List.nil_append, List.append_nil] at hall
  rw [hall]
  simp

theorem afterRange_parenthetical {z : Text} (hz : z.NoBrackets) :
    afterRange ('(' :: (z ++ [')'])) = (some z, []) := by
  rw [afterRange, Text.leadingParenthetical?_cons hz]

/-! ## The whole text -/

namespace OpeningTimes

/-- A text that is one segment has the windows of that segment. -/
theorem readStatements_of_one_segment {v : TimeWindow} {scope : Scope}
    (hstatement : Text.splitTopLevel isStatementMark s = [s])
    (hsegment : Text.splitTopLevel isSegmentMark s = [s])
    (hread : Segment.read {} s = (.windows [v], scope)) : (readStatements s).1 = [v] := by
  simp [readStatements, readStatement, readSegments, hstatement, hsegment, hread]

end OpeningTimes

open OpeningTimes

namespace ColonTime

/-- The minute exists, and the hour is one of a day or of the small hours counted on from 24. -/
def IsValid (t : ColonTime) : Prop :=
  t.hour.value ≤ 47 ∧ t.minute < 60

instance (t : ColonTime) : Decidable t.IsValid :=
  inferInstanceAs (Decidable (_ ∧ _))

end ColonTime

namespace ColonRange

theorem exists_window?_eq (r : ColonRange) (hstart : r.start.IsValid) (hfinish : r.finish.IsValid) :
    ∃ w, r.window? = some w := by
  simp [window?, ColonTime.time?_eq hstart.1 hstart.2, ColonTime.time?_eq hfinish.1 hfinish.2]

/-- The range alone has one window, with its times. -/
theorem exists_windows_text (r : ColonRange) (hw : r.window? = some w) :
    ∃ v, (ofText (some r.text)).windows = [v] ∧ v.SameTimes w := by
  have hplain : r.text ⊆ plainAlphabet := List.Subset.trans r.text_subset (by decide)
  have hmark (c : Char) (hc : c ∈ r.text) :
      isStatementMark c = false ∧ isSegmentMark c = false := by
    have hall : (segmentAlphabet.all fun c => !isStatementMark c && !isSegmentMark c) = true := by
      decide
    simpa using List.all_eq_true.1 hall c (r.text_subset hc)
  have hadmission : extractLastAdmission r.text = (none, r.text ++ []) := by
    rw [List.append_nil, extractLastAdmission_of_plain hplain]
  obtain ⟨v, scope, hread, hv⟩ :=
    Segment.exists_window r.tidy_text.trim hadmission (fails_word rfl) rfl hw
  refine ⟨v, ?_, hv⟩
  rw [ofText_of_plain r.tidy_text hplain]
  exact readStatements_of_one_segment
    (Text.splitTopLevel_of_no_separator (fun c hc => (hmark c hc).1) r.tidy_text.not_isAllBlank)
    (Text.splitTopLevel_of_no_separator (fun c hc => (hmark c hc).2) r.tidy_text.not_isAllBlank)
    hread

/-- The range with a text in parentheses behind it. -/
def withParenthetical (r : ColonRange) (x : Text) : Text :=
  r.text ++ '(' :: (x ++ [')'])

end ColonRange

/-- A range between times that exist and a text without brackets, which together neither say that
the facility never closes nor name hotel times. -/
structure ParenthesizedRange (r : ColonRange) (x : Text) : Prop where
  start_valid : r.start.IsValid
  finish_valid : r.finish.IsValid
  no_brackets : (Text.normalize x).NoBrackets
  not_aroundTheClock : saysAroundTheClock (Text.normalize (r.withParenthetical x)) = false
  no_checkIn : Wording.checkIn.occursIn (Text.normalize (r.withParenthetical x)) = false
  no_checkOut : Wording.checkOut.occursIn (Text.normalize (r.withParenthetical x)) = false

namespace ParenthesizedRange

variable {x : Text}

/-- **A parenthetical adds no window and changes no times.** Whatever stands in the parentheses, the
text has one window, as the range alone has, and it starts and ends like that of the range alone. -/
theorem windows_eq (h : ParenthesizedRange r x) :
    ∃ v w, (ofText (some (r.withParenthetical x))).windows = [v] ∧
      (ofText (some r.text)).windows = [w] ∧ v.start = w.start ∧ v.finish = w.finish ∧
      v.crossesMidnight = w.crossesMidnight := by
  obtain ⟨u, hu⟩ := r.exists_window?_eq h.start_valid h.finish_valid
  obtain ⟨w, hw, hwu⟩ := r.exists_windows_text hu
  have hword : (segmentAlphabet.all Text.isWordPart) = true := by decide
  have hstatement : (segmentAlphabet.all (Text.isInner isStatementMark)) = true := by decide
  have hsegment : (segmentAlphabet.all (Text.isInner isSegmentMark)) = true := by decide
  obtain ⟨y, hy, hnormal⟩ := Text.exists_normalize_parenthetical
    (fun c hc => List.all_eq_true.1 hword c (r.text_subset hc)) h.no_brackets
  obtain ⟨lastAdmission, z, hz, hadmission⟩ := exists_extractLastAdmission_parenthetical r hy
  have huntil (t : Text) : (word "まで").Fails ('(' :: t) := fails_word rfl
  have hrange : Wording.timeRange.occursIn (Text.normalize (r.withParenthetical x)) = true := by
    rw [ColonRange.withParenthetical, hnormal]
    exact occursIn_of_skips (s := []) trivial (r.prefers_timeRange (huntil _))
      (by simp [ColonRange.hit, ColonRange.text])
  have htrim := Text.trim_normalize (r.withParenthetical x)
  rw [ColonRange.withParenthetical, hnormal] at htrim
  obtain ⟨v, scope, hread, hvu⟩ := Segment.exists_window htrim hadmission (huntil _)
    (afterRange_parenthetical hz) hu
  obtain ⟨hstart, hfinish, hcrosses⟩ := hvu.trans hwu.symm
  refine ⟨v, w, ?_, hw, hstart, hfinish, hcrosses⟩
  rw [(ofText_of_range hrange h.not_aroundTheClock h.no_checkIn h.no_checkOut).1,
    ColonRange.withParenthetical, hnormal]
  exact readStatements_of_one_segment
    (Text.splitTopLevel_parenthetical
      (fun c hc => List.all_eq_true.1 hstatement c (r.text_subset hc)) hy)
    (Text.splitTopLevel_parenthetical
      (fun c hc => List.all_eq_true.1 hsegment c (r.text_subset hc)) hy) hread

/-- Closed Mondays, other hours in winter and the last admission, on two lines in parentheses. -/
theorem windows_eq_winterHours :
    let r : ColonRange := ⟨⟨.one (.of 9), .of 0, .of 0⟩, ⟨.two (.of 1) (.of 7), .of 0, .of 0⟩⟩
    let x := "月曜休館、12月~2月は10:00~16:00\n最終入館15:30".toList
    ParenthesizedRange r x ∧
      ∃ v w, (ofText (some (r.withParenthetical x))).windows = [v] ∧
        (ofText (some r.text)).windows = [w] ∧ v.start = w.start ∧ v.finish = w.finish ∧
        v.crossesMidnight = w.crossesMidnight := by
  intro r x
  have hrange : ParenthesizedRange r x := by
    constructor <;> decide +kernel
  exact ⟨hrange, hrange.windows_eq⟩

end ParenthesizedRange

end OpeningHours
