import Mathlib.Data.List.Basic
import OpeningHours.Proofs.Hours.Lines

/-!
# A segment added at the end

Behind a text with windows and the separator `、` a further segment is read under the scope that the
text has left, and what it says comes behind what the text says (**`readStatements_added`**). The
segment leaves a trace unless it only has qualifiers, which wait for the segments after it, or names
a last admission without a range that it could belong to (`Segment.LeavesTrace`,
**`ofText_added`**).
-/

namespace OpeningHours

open Pattern

variable {scope : Scope} {t u segment : Text}

/-! ## What a segment says -/

namespace Segment

/-- Blanks at the ends of a segment say nothing. -/
theorem read_of_trim_eq (h : Text.trim t = Text.trim u) (scope : Scope) :
    read scope t = read scope u := by
  rw [read, read, h]

theorem read_of_isAllBlank (ht : Text.isAllBlank t = true) (scope : Scope) :
    read scope t = (.silent, scope) := by
  rw [read, Text.trim_of_isAllBlank ht]
  rfl

/-- Whether the segment has a time range, a last admission aside. -/
def isTimed (segment : Text) : Bool :=
  Wording.timeRange.occursIn (extractLastAdmission segment).2

/-- The segment has a time range, or it neither names a last admission nor is made of qualifiers
alone. -/
def LeavesTrace (segment : Text) : Prop :=
  isTimed segment = true ∨
    (extractLastAdmission segment).1 = none ∧ Qualifiers.only? segment = none

/-- The segment is made of qualifiers alone. -/
def IsHeld (segment : Text) : Prop :=
  isTimed segment = false ∧ (extractLastAdmission segment).1 = none ∧
    Qualifiers.only? segment ≠ none

instance (segment : Text) : Decidable (LeavesTrace segment) :=
  inferInstanceAs (Decidable (_ ∨ _))

instance (segment : Text) : Decidable (IsHeld segment) :=
  inferInstanceAs (Decidable (_ ∧ _))

/-- Where no last admission is named the segment is read as it is. -/
theorem extractLastAdmission_of_none (h : (extractLastAdmission segment).1 = none) :
    (extractLastAdmission segment).2 = segment := by
  rw [extractLastAdmission, List.getLast?_eq_none_iff] at h
  exact extract_snd_of_fst_eq_nil h

theorem length_noteLast (notes : List Text) (ws : List TimeWindow) :
    (noteLast notes ws).length = ws.length := by
  fun_induction noteLast notes ws with
  | case1 => rfl
  | case2 => rfl
  | case3 w v ws ih => exact congrArg (· + 1) ih

/-- A segment says windows, or it is a note. -/
inductive Speaks (segment : Text) : Segment → Prop where
  | windows {ws : List TimeWindow} (hne : ws ≠ []) : Speaks segment (.windows ws)
  | note : Speaks segment (.note segment)

theorem speaks_readTimed (scope : Scope) (segment rest : Text) (last : Option ClockTime) :
    Speaks segment (readTimed scope segment rest last).1 := by
  rw [readTimed]
  split
  · exact .note
  · next hwindows =>
    have hclose : (RangeReading.close (readRanges scope rest) last).length =
        (readRanges scope rest).windows.length := by
      rw [RangeReading.close, length_noteLast, List.length_map]
    refine .windows fun hnil => hwindows ?_
    rw [hnil, List.length_nil] at hclose
    rw [List.isEmpty_iff, ← List.length_eq_zero_iff, ← hclose]

/-- **A segment with a range, or one that is not understood, says something.** -/
theorem LeavesTrace.speaks (h : LeavesTrace segment) (htrim : Text.trim segment = segment)
    (hremainder : (Text.remainder? segment).isSome = true) (scope : Scope) :
    Speaks segment (read scope segment).1 := by
  have hne : segment.isEmpty = false := by
    cases segment with
    | nil => exact absurd hremainder (by decide)
    | cons c r => rfl
  simp only [read, htrim, hne, Bool.false_eq_true, if_false]
  split
  · exact speaks_readTimed scope _ _ _
  · next htimed =>
    obtain htrace | ⟨hlast, honly⟩ := h
    · exact absurd htrace htimed
    · have hsome := Option.isSome_iff_ne_none.1 hremainder
      rw [extractLastAdmission_of_none hlast, readPlain, honly, hlast]
      simp only [Option.isSome_none, Bool.false_or, Option.isNone_iff_eq_none, hsome, if_false]
      exact .note

/-- Qualifiers alone say nothing by themselves. -/
theorem IsHeld.silent (h : IsHeld segment) (htrim : Text.trim segment = segment)
    (scope : Scope) : (read scope segment).1 = .silent := by
  obtain ⟨htimed, hlast, honly⟩ := h
  obtain ⟨q, hq⟩ := Option.ne_none_iff_exists'.1 honly
  simp only [read, htrim]
  split
  · rfl
  · rw [isTimed] at htimed
    rw [if_neg (by simp [htimed]), extractLastAdmission_of_none hlast, readPlain, hq]

end Segment

namespace OpeningTimes

/-! ## Segments one after another -/

/-- The scope behind segments. -/
def scopeBehind (scope : Scope) (segments : List Text) : Scope :=
  segments.foldl (fun scope segment => (Segment.read scope segment).2) scope

theorem readSegments_append (scope : Scope) (ps qs : List Text) :
    readSegments scope (ps ++ qs) =
      ((readSegments scope ps).1 ++ (readSegments (scopeBehind scope ps) qs).1,
        (readSegments scope ps).2 ++ (readSegments (scopeBehind scope ps) qs).2) := by
  induction ps generalizing scope with
  | nil => rfl
  | cons p ps ih =>
    simp only [List.cons_append, readSegments, ih, scopeBehind, List.foldl_cons]
    cases (Segment.read scope p).1 <;> simp

/-- Segments of blanks say nothing. -/
theorem readSegments_filter (scope : Scope) (ps : List Text) :
    readSegments scope (ps.filter fun p => !Text.isAllBlank p) = readSegments scope ps := by
  induction ps generalizing scope with
  | nil => rfl
  | cons p ps ih =>
    cases hp : Text.isAllBlank p with
    | true =>
      have hread := Segment.read_of_isAllBlank hp scope
      rw [List.filter_cons_of_neg (by simp [hp]), ih, readSegments, hread]
    | false =>
      rw [List.filter_cons_of_pos (by simp [hp])]
      simp only [readSegments, ih]

theorem readStatement_eq (t : Text) :
    readStatement t = readSegments {} (Text.cutTopLevel isSegmentMark 0 t) :=
  readSegments_filter {} _

/-! ## Statements one after another -/

theorem isSegmentMark_of_isBlank {c : Char} (hc : Text.isBlank c = true) :
    isSegmentMark c = false := by
  have hmarks : ",/、".toList.all (fun c => !Text.isBlank c) = true := by decide
  rw [isSegmentMark, ← Bool.not_eq_true, List.contains_iff_mem]
  intro hmem
  have := List.all_eq_true.1 hmarks c hmem
  simp [hc] at this

theorem readStatement_of_isAllBlank (ht : Text.isAllBlank t = true) : readStatement t = ([], []) := by
  have hmark : ∀ c ∈ t, isSegmentMark c = false :=
    fun c hc => isSegmentMark_of_isBlank (List.all_eq_true.1 ht c hc)
  rw [readStatement_eq, Text.cutTopLevel_of_no_separator hmark, readSegments,
    Segment.read_of_isAllBlank ht]
  rfl

/-- The statements of a text, those of blanks included. -/
theorem readStatements_eq (t : Text) :
    readStatements t =
      ((Text.cutTopLevel isStatementMark 0 t).flatMap fun p => (readStatement p).1,
        (Text.cutTopLevel isStatementMark 0 t).flatMap fun p => (readStatement p).2) := by
  have hfilter {α : Type} (f : Text → List α) (hf : ∀ p, Text.isAllBlank p = true → f p = [])
      (ps : List Text) : (ps.filter fun p => !Text.isAllBlank p).flatMap f = ps.flatMap f := by
    induction ps with
    | nil => rfl
    | cons p ps ih =>
      cases hp : Text.isAllBlank p with
      | true => rw [List.filter_cons_of_neg (by simp [hp]), ih, List.flatMap_cons, hf p hp]; rfl
      | false =>
        rw [List.filter_cons_of_pos (by simp [hp]), List.flatMap_cons, List.flatMap_cons, ih]
  have hblank {p : Text} (hp : Text.isAllBlank p = true) := readStatement_of_isAllBlank hp
  rw [readStatements, Text.splitTopLevel, List.flatMap_map, List.flatMap_map,
    hfilter _ fun p hp => by rw [hblank hp], hfilter _ fun p hp => by rw [hblank hp]]

/-! ## One more segment -/

variable {piece : Text}

/-- A further segment of a statement, perhaps behind a space. -/
theorem readStatement_added (ht : t.foldl Text.depthAfter 0 = 0) {gap : Text}
    (hgap : gap = [] ∨ gap = [' ']) (hpiece : ∀ c ∈ piece, isSegmentMark c = false) :
    ∃ scope, readStatement (t ++ (gap ++ '、' :: piece)) =
      ((readStatement t).1 ++ (readSegments scope [piece]).1,
        (readStatement t).2 ++ (readSegments scope [piece]).2) := by
  obtain ⟨front, last, hcut, -⟩ := Text.exists_cutTopLevel_append isSegmentMark ht
  have hfirst := hcut [] (by simp)
  have hfirstGap := hcut gap (by rcases hgap with rfl | rfl <;> simp [isSegmentMark])
  rw [List.append_nil, List.append_nil] at hfirst
  have hdepth : (t ++ gap).foldl Text.depthAfter 0 = 0 := by
    rw [List.foldl_append, ht]
    rcases hgap with rfl | rfl <;> rfl
  have htrim : Text.trim (last ++ gap) = Text.trim last :=
    Text.trim_append_of_isAllBlank last (by rcases hgap with rfl | rfl <;> rfl)
  have hlast (scope : Scope) : readSegments scope [last ++ gap] = readSegments scope [last] := by
    simp only [readSegments, Segment.read_of_trim_eq htrim scope]
  refine ⟨scopeBehind {} (front ++ [last ++ gap]), ?_⟩
  rw [← List.append_assoc, readStatement_eq, readStatement_eq t,
    Text.cutTopLevel_append_of_depth hdepth (by decide), hfirst, hfirstGap,
    Text.cutTopLevel_of_no_separator hpiece, readSegments_append, readSegments_append {} front,
    readSegments_append {} front, hlast]

/-- **What one more segment adds.** Behind a text whose brackets are closed, and perhaps a gap, the
windows and notes of the segment come behind those of the text. -/
theorem readStatements_added (ht : t.foldl Text.depthAfter 0 = 0) {gap : Option Char}
    (hgap : ∀ c ∈ gap, Text.isGap c = true)
    (hpiece : ∀ c ∈ piece, isStatementMark c = false ∧ isSegmentMark c = false) :
    ∃ scope, readStatements (t ++ (gap.toList ++ '、' :: piece)) =
      ((readStatements t).1 ++ (readSegments scope [piece]).1,
        (readStatements t).2 ++ (readSegments scope [piece]).2) := by
  have hmark : ∀ c ∈ '、' :: piece, isStatementMark c = false := by
    intro c hc
    rcases List.mem_cons.1 hc with rfl | hc
    · decide
    · exact (hpiece c hc).1
  -- A line break in front of the separator ends the statement, a space does not.
  by_cases hline : gap = some '\n'
  · subst hline
    have hnone : ([] : Text) = [] ∨ ([] : Text) = [' '] := .inl rfl
    obtain ⟨scope, hread⟩ := readStatement_added (t := []) rfl hnone fun c hc => (hpiece c hc).2
    refine ⟨scope, ?_⟩
    have hnil : readStatement [] = ([], []) := readStatement_of_isAllBlank rfl
    simp only [hnil, List.nil_append] at hread
    rw [Option.toList_some, List.singleton_append, readStatements_line ht,
      readStatements_eq ('、' :: piece), Text.cutTopLevel_of_no_separator hmark]
    simp only [List.flatMap_singleton, hread]
  · have hspace : gap.toList = [] ∨ gap.toList = [' '] := by
      cases gap with
      | none => exact .inl rfl
      | some c =>
        rcases Text.eq_of_isGap (hgap c rfl) with rfl | rfl
        · exact .inr rfl
        · exact absurd rfl hline
    obtain ⟨front, last, hcut, hdepth⟩ :=
      Text.exists_cutTopLevel_append isStatementMark ht
    have hfirst := hcut [] (by simp)
    rw [List.append_nil, List.append_nil] at hfirst
    have hall : ∀ c ∈ gap.toList ++ '、' :: piece, isStatementMark c = false := by
      intro c hc
      rcases List.mem_append.1 hc with hc | hc
      · rcases hspace with h | h
        · simp [h] at hc
        · rw [h, List.mem_singleton] at hc
          rw [hc]
          decide
      · exact hmark c hc
    obtain ⟨scope, hread⟩ := readStatement_added (by simpa using hdepth) hspace
      fun c hc => (hpiece c hc).2
    refine ⟨scope, ?_⟩
    rw [readStatements_eq, readStatements_eq t, hcut _ hall, hfirst]
    simp only [List.flatMap_append, List.flatMap_singleton, hread, List.append_assoc]

/-! ## The whole text -/

/-- A text without hotel times gives no windows, or is read as its statements. -/
theorem windows_eq_nil_or (hcheckIn : Wording.checkIn.occursIn (Text.normalize t) = false)
    (hcheckOut : Wording.checkOut.occursIn (Text.normalize t) = false) :
    (ofText (some t)).windows = [] ∨
      (ofText (some t)).windows = (readStatements (Text.normalize t)).1 ∧
        (ofText (some t)).notes = (readStatements (Text.normalize t)).2 := by
  have hwithout : withoutHotelTimes (Text.normalize t) = Text.normalize t := by
    rw [withoutHotelTimes, blankOut_of_occursIn_eq_false hcheckIn,
      blankOut_of_occursIn_eq_false hcheckOut]
  simp only [ofText, readNormal]
  split
  · exact .inl rfl
  · split
    · exact .inl rfl
    · split
      · exact .inl rfl
      · split
        · exact .inl rfl
        · rw [hwithout]
          exact .inr ⟨rfl, rfl⟩

end OpeningTimes

/-- Whether the character ends a statement or a segment. -/
def isSeparator (c : Char) : Bool :=
  isStatementMark c || isSegmentMark c

/-- A text with windows whose brackets are closed, and a further segment that says something. Behind
the text with the separator `、` it names no hotel times and does not say that the facility never
closes. -/
structure AddedSegment (t s : Text) : Prop where
  has_window : (OpeningTimes.ofText (some t)).windows ≠ []
  brackets_closed : (Text.normalize t).foldl Text.depthAfter 0 = 0
  one_segment : (s.map Text.halfWidth).any isSeparator = false
  says_something : (Text.remainder? (Text.normalize s)).isSome = true
  not_aroundTheClock :
    OpeningTimes.saysAroundTheClock (Text.normalize (t ++ '、' :: s)) = false
  no_checkIn : Wording.checkIn.occursIn (Text.normalize (t ++ '、' :: s)) = false
  no_checkOut : Wording.checkOut.occursIn (Text.normalize (t ++ '、' :: s)) = false

theorem any_isWordCharacter_added {gap : Option Char} (hgap : ∀ c ∈ gap, Text.isGap c = true)
    (r : Text) : (gap.toList ++ '、' :: r).head?.any Text.isWordCharacter = false := by
  have hmark : Text.isWordCharacter '、' = false := by decide +kernel
  cases gap with
  | none => rw [Option.toList_none, List.nil_append, List.head?_cons, Option.any_some, hmark]
  | some c =>
    rw [Option.toList_some, List.cons_append, List.head?_cons, Option.any_some,
      Text.isWordCharacter_gap (hgap c rfl)]

namespace AddedSegment

variable {s : Text}

open OpeningTimes

/-- The normal form of the text goes on with that of the segment. -/
theorem normalize_added (t s : Text) : ∃ gap : Option Char, (∀ c ∈ gap, Text.isGap c = true) ∧
    Text.normalize (t ++ '、' :: s) =
      Text.normalize t ++ (gap.toList ++ '、' :: Text.squeeze s) := by
  obtain ⟨gap, hgap, heq⟩ := Text.normalize_append_cons (c := '、') (by decide) (by decide) t s
  rw [Text.normalize_cons (by decide) (by decide)] at heq
  exact ⟨gap, hgap, heq⟩

theorem occursIn_append {p : Pattern} (hp : p.ignoresEnd = true) (s : Text)
    (ht : p.occursIn (Text.normalize t) = true) :
    p.occursIn (Text.normalize (t ++ '、' :: s)) = true := by
  obtain ⟨gap, hgap, heq⟩ := normalize_added t s
  rw [heq]
  exact occursIn_append_left hp (any_isWordCharacter_added hgap _) ht

theorem occursIn_eq_false {p : Pattern} (hp : p.ignoresEnd = true)
    (h : p.occursIn (Text.normalize (t ++ '、' :: s)) = false) :
    p.occursIn (Text.normalize t) = false := by
  by_contra ht
  rw [occursIn_append hp s (by simpa using ht)] at h
  exact Bool.false_ne_true h.symm

/-- What the segment says comes behind what the text says. -/
theorem readStatements_eq_append (h : AddedSegment t s) :
    ∃ scope, readStatements (Text.normalize (t ++ '、' :: s)) =
      ((ofText (some t)).windows ++ (readSegments scope [Text.normalize s]).1,
        (ofText (some t)).notes ++ (readSegments scope [Text.normalize s]).2) := by
  have htext := (windows_eq_nil_or (occursIn_eq_false (by decide) h.no_checkIn)
    (occursIn_eq_false (by decide) h.no_checkOut)).resolve_left h.has_window
  have hpiece : ∀ c ∈ Text.squeeze s, isStatementMark c = false ∧ isSegmentMark c = false := by
    intro c hc
    rcases Text.mem_squeeze hc with rfl | hc
    · exact ⟨by decide, by decide⟩
    · have hmark := List.any_eq_false.1 h.one_segment c hc
      simpa [isSeparator] using hmark
  obtain ⟨gap, hgap, heq⟩ := normalize_added t s
  obtain ⟨scope, hread⟩ := readStatements_added h.brackets_closed hgap hpiece
  have htrim : Text.trim (Text.squeeze s) = Text.trim (Text.normalize s) :=
    (Text.trim_squeeze s).trans (Text.trim_normalize s).symm
  have hsegment : readSegments scope [Text.squeeze s] = readSegments scope [Text.normalize s] := by
    simp only [readSegments, Segment.read_of_trim_eq htrim scope]
  rw [hsegment] at hread
  exact ⟨scope, by rw [heq, hread, htext.1, htext.2]⟩

/-- **A segment added at the end leaves a trace** among the windows and notes, if it has a time
range, or names no last admission and is not made of qualifiers alone. Qualifiers alone wait for the
segments after it; where none comes they change neither windows nor notes. -/
theorem ofText_added (h : AddedSegment t s) :
    (Segment.LeavesTrace (Text.normalize s) →
      (ofText (some (t ++ '、' :: s))).windows ≠ (ofText (some t)).windows ∨
        (ofText (some (t ++ '、' :: s))).notes ≠ (ofText (some t)).notes) ∧
    (Segment.IsHeld (Text.normalize s) →
      Wording.timeRange.occursIn (Text.normalize t) = true →
        (ofText (some (t ++ '、' :: s))).windows = (ofText (some t)).windows ∧
          (ofText (some (t ++ '、' :: s))).notes = (ofText (some t)).notes) := by
  obtain ⟨scope, hread⟩ := h.readStatements_eq_append
  constructor
  · intro htrace
    rcases windows_eq_nil_or h.no_checkIn h.no_checkOut with hnil | ⟨hwindows, hnotes⟩
    · exact .inl fun heq => h.has_window (heq.symm.trans hnil)
    · rw [hwindows, hnotes, hread]
      have hspeaks := htrace.speaks (Text.trim_normalize s) h.says_something scope
      generalize hsaid : (Segment.read scope (Text.normalize s)).1 = said at hspeaks
      cases hspeaks with
      | windows hne =>
        refine .inl ?_
        simp only [readSegments, hsaid]
        simpa using hne
      | note =>
        refine .inr ?_
        simp only [readSegments, hsaid]
        simp
  · intro hheld hrange
    have hsaid := hheld.silent (Text.trim_normalize s) scope
    obtain ⟨hwindows, hnotes⟩ := ofText_of_range (occursIn_append (by decide) s hrange)
      h.not_aroundTheClock h.no_checkIn h.no_checkOut
    rw [hwindows, hnotes, hread]
    simp only [readSegments, hsaid, List.append_nil, and_self]

/-- A remark leaves a trace; a day alone changes no window. -/
theorem ofText_added_remark_and_day :
    let t := "9:00~17:00 ".toList
    let remark := "雨天時は中止".toList
    ((ofText (some (t ++ '、' :: remark))).windows ≠ (ofText (some t)).windows ∨
      (ofText (some (t ++ '、' :: remark))).notes ≠ (ofText (some t)).notes) ∧
    (ofText (some (t ++ '、' :: ['月']))).windows = (ofText (some t)).windows := by
  intro t remark
  have hremark : AddedSegment t remark := by
    constructor <;> decide +kernel
  have hday : AddedSegment t ['月'] := by
    constructor <;> decide +kernel
  exact ⟨hremark.ofText_added.1 (by decide +kernel),
    (hday.ofText_added.2 (by decide +kernel) (by decide +kernel)).1⟩

/-- The segment says something as it is written, and yet nothing is read differently with it behind
the text. -/
def Vanishes (t s : Text) : Prop :=
  ((ofText (some t)).windows ≠ [] ∧ t.foldl Text.depthAfter 0 = 0 ∧
    s.any (fun c => isSeparator c || Text.isOpening c || Text.isClosing c) = false ∧
    (Text.remainder? s).isSome = true ∧
    saysAroundTheClock (Text.normalize (t ++ '、' :: s)) = false ∧
    Wording.checkIn.occursIn (Text.normalize (t ++ '、' :: s)) = false ∧
    Wording.checkOut.occursIn (Text.normalize (t ++ '、' :: s)) = false) ∧
  { ofText (some (t ++ '、' :: s)) with raw := none, normalized := none } =
    { ofText (some t) with raw := none, normalized := none }

/-- A day without a range behind it, a range glyph that is filler in its normal form, and a last
admission without a range vanish. -/
theorem vanishes_day_filler_lastAdmission :
    Vanishes "9:00~17:00".toList "月".toList ∧ Vanishes "9:00~17:00".toList "～".toList ∧
      Vanishes "9:00~17:00".toList "最終入場16:30".toList := by
  unfold Vanishes
  refine ⟨?_, ?_, ?_⟩ <;> decide +kernel

end AddedSegment

end OpeningHours
