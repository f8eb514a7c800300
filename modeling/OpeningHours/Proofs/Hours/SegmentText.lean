import Mathlib.Data.List.Basic
import OpeningHours.Proofs.Hours.RangeSegment
import OpeningHours.Proofs.Scope.DayList
import OpeningHours.Proofs.Text.Pieces

/-!
# Segments as they are written

A segment of a text of opening times is written as a range of clock times with perhaps a range of
months and a list of days in front: `4月~10月 月・水・祝 9:00~17:00`. Under segments `earlier` that
stand in front of it in its statement it means the window `SegmentText.windowAfter earlier`, whose
months and days are those named last.

The scope that the reader carries through a statement is determined by the segments behind it
(`scopeAfter`): the qualifiers of a segment enter it (`enter_scopeAfter`), and the segment is read
as the window that it means (**`SegmentText.read_scopeAfter`**).
-/

namespace OpeningHours

open Pattern

/-! ## What is written, and what is meant -/

/-- A segment of a statement. -/
structure SegmentText where
  months : Option MonthSpan
  days : Option DayList
  range : ColonRange
  start_hour : range.start.hour.value < 24
  start_minute : range.start.minute < 60
  finish_hour : range.finish.hour.value < 48
  finish_minute : range.finish.minute < 60

namespace SegmentText

/-- The qualifiers as they are written, a space behind each. -/
def qualifierText (s : SegmentText) : Text :=
  s.months.elim [] (·.text ++ [' ']) ++ s.days.elim [] (·.text ++ [' '])

/-- The segment as it is written. -/
def text (s : SegmentText) : Text :=
  s.qualifierText ++ s.range.text

/-- The start of the window. -/
def start (s : SegmentText) : ClockTime :=
  ⟨60 * s.range.start.hour.value + s.range.start.minute, by
    have := s.start_hour
    have := s.start_minute
    omega⟩

/-- The end of the window, on the day that it falls on. -/
def finish (s : SegmentText) : ClockTime :=
  ⟨60 * (s.range.finish.hour.value % 24) + s.range.finish.minute, by
    have := s.finish_minute
    omega⟩

/-- The months named last. -/
def latestMonths (segments : List SegmentText) : Option MonthRange :=
  (segments.filterMap months).getLast?.map MonthSpan.range

/-- The list of days named last. -/
def latestDays (segments : List SegmentText) : Option DayList :=
  (segments.filterMap days).getLast?

/-- The window of a segment that stands behind the segments `earlier` of its statement. -/
def windowAfter (earlier : List SegmentText) (s : SegmentText) : TimeWindow :=
  { start := s.start
    finish := some s.finish
    crossesMidnight := decide (24 ≤ s.range.finish.hour.value ∨
      s.finish.minuteOfDay ≤ s.start.minuteOfDay)
    months := (latestMonths (earlier ++ [s])).toList
    days := (latestDays (earlier ++ [s])).map (.ofList ·.weekdays)
    includesHolidays := (latestDays (earlier ++ [s])).all (·.holiday) }

end SegmentText

/-! ## Characters -/

theorem MonthSpan.text_subset (s : MonthSpan) : s.text ⊆ segmentAlphabet := by
  have hdigits : asciiDigits ⊆ segmentAlphabet := by decide
  have hfirst := List.Subset.trans s.first.text_subset hdigits
  have hlast := List.Subset.trans s.last.text_subset hdigits
  have htail : s.last.text ++ ['月'] ⊆ segmentAlphabet :=
    List.append_subset.2 ⟨hlast, by decide⟩
  have htilde := List.cons_subset.2 ⟨(by decide : '~' ∈ segmentAlphabet), htail⟩
  have hmonth := List.cons_subset.2 ⟨(by decide : '月' ∈ segmentAlphabet), htilde⟩
  exact List.append_subset.2 ⟨hfirst, hmonth⟩

theorem DayList.text_subset (l : DayList) : l.text ⊆ segmentAlphabet := by
  have hitems : ∀ t ∈ l.items.map DayToken.text, t ⊆ segmentAlphabet := by
    intro t ht
    obtain ⟨token, htoken, rfl⟩ := List.mem_map.1 ht
    rcases List.mem_append.1 htoken with hday | hholiday
    · obtain ⟨d, -, rfl⟩ := List.mem_map.1 hday
      cases d <;> decide
    · have : token = .holiday := by
        split at hholiday
        · exact List.mem_singleton.1 hholiday
        · simp at hholiday
      subst this
      decide
  exact Text.intercalate_subset (by decide) hitems

theorem DayList.not_isDigit (l : DayList) {c : Char} (hc : c ∈ l.text ++ [' ']) :
    c.isDigit = false := by
  have hall : (DayToken.alphabet.all fun c => !c.isDigit) = true := by decide
  have hc' : c ∈ DayToken.texts ([] ++ (DayToken.dotted l.items ++ [.space])) := by
    rw [l.texts_tokens]
    exact hc
  have := List.all_eq_true.1 hall c (DayToken.texts_subset _ hc')
  simpa using this

namespace SegmentText

variable (s : SegmentText)

/-! ## The qualifiers of a segment -/

/-- The qualifiers that are meant. -/
def qualifiers (s : SegmentText) : Qualifiers :=
  ⟨(s.months.map MonthSpan.range).toList, s.days.map DayList.scope⟩

/-- The qualifiers are read as they are meant and leave no note. -/
theorem extract_qualifierText :
    ∃ rest, Qualifiers.extract s.qualifierText = (s.qualifiers, rest) ∧
      Text.remainder? rest = none := by
  have hnoDays : extractDays [] = (none, []) ∧ extractDays [' ', ' '] = (none, [' ', ' ']) := by
    decide
  cases hm : s.months with
  | none =>
    cases hd : s.days with
    | none =>
      have hmonths : extractMonths [] = ([], []) := extractMonths_of_no_digit (by simp)
      have htext : s.qualifierText = [] := by simp [qualifierText, hm, hd]
      have hmeant : s.qualifiers = ⟨[], none⟩ := by simp [qualifiers, hm, hd]
      rw [htext, hmeant]
      exact ⟨[], Qualifiers.extract_eq hmonths hnoDays.1, rfl⟩
    | some l =>
      obtain ⟨rest, hdays, hrest⟩ := l.extractDays_text [] (by simp)
      have hmonths := extractMonths_of_no_digit fun c hc => l.not_isDigit hc
      have htext : s.qualifierText = l.text ++ [' '] := by simp [qualifierText, hm, hd]
      have hmeant : s.qualifiers = ⟨[], some l.scope⟩ := by simp [qualifiers, hm, hd]
      rw [htext, hmeant]
      exact ⟨rest, Qualifiers.extract_eq hmonths hdays, Text.remainder?_eq_none hrest⟩
  | some m =>
    cases hd : s.days with
    | none =>
      have hmonths : extractMonths (m.text ++ [' ']) = ([m.range], [' ', ' ']) :=
        extractMonths_append m (by simp) (fails_word rfl) (fails_word rfl)
      have htext : s.qualifierText = m.text ++ [' '] := by simp [qualifierText, hm, hd]
      have hmeant : s.qualifiers = ⟨[m.range], none⟩ := by simp [qualifiers, hm, hd]
      rw [htext, hmeant]
      exact ⟨_, Qualifiers.extract_eq hmonths hnoDays.2, Text.remainder?_eq_none (by decide)⟩
    | some l =>
      obtain ⟨rest, hdays, hrest⟩ := l.extractDays_text [.space, .space] (by decide)
      have hdigit : ∀ c ∈ ' ' :: (l.text ++ [' ']), c.isDigit = false := by
        intro c hc
        rcases List.mem_cons.1 hc with rfl | hc
        · rfl
        · exact l.not_isDigit hc
      have hmonths := extractMonths_append m hdigit (fails_word rfl) (fails_word rfl)
      have htext : s.qualifierText = m.text ++ ' ' :: (l.text ++ [' ']) := by
        simp [qualifierText, hm, hd]
      have hmeant : s.qualifiers = ⟨[m.range], some l.scope⟩ := by simp [qualifiers, hm, hd]
      rw [htext, hmeant]
      exact ⟨rest, Qualifiers.extract_eq hmonths hdays, Text.remainder?_eq_none hrest⟩

/-! ## The text of a segment -/

theorem skips_qualifierText (rest : Text) : Wording.timeRange.Skips s.qualifierText rest := by
  have hdays (l : DayList) (rest : Text) : Wording.timeRange.Skips (l.text ++ [' ']) rest :=
    skips_of_mayStart (fun c hc => by rw [mayStart_timeRange, l.not_isDigit hc]) rest
  have hmonths (m : MonthSpan) (rest : Text) : Wording.timeRange.Skips (m.text ++ [' ']) rest :=
    skips_append.2 ⟨m.skips_timeRange _, skips_of_all (by decide) rest⟩
  rw [qualifierText, skips_append]
  refine ⟨?_, ?_⟩
  · cases s.months with
    | none => trivial
    | some m => exact hmonths m _
  · cases s.days with
    | none => trivial
    | some l => exact hdays l _

/-- A qualifier with a space behind it, in front of the rest of a segment. -/
theorem tidy_qualifier {t u : Text} (ht : t ⊆ segmentAlphabet) (hne : t ≠ [])
    (hu : Text.Tidy u) (husub : u ⊆ ' ' :: segmentAlphabet) : Text.Tidy (t ++ ' ' :: u) := by
  have hmark : (' ' :: segmentAlphabet).all (fun c => !Text.isListMark c) = true := by decide
  refine (Text.Tidy.of_subset (by decide) ht hne).space_of_no_mark hu fun c hc => ?_
  have hmem : c ∈ ' ' :: segmentAlphabet :=
    (List.mem_append.1 hc).elim (fun h => List.mem_cons_of_mem _ (ht h)) fun h => husub h
  simpa using List.all_eq_true.1 hmark c hmem

/-- A segment is tidy and holds no other characters than those of its parts. -/
theorem tidy_text : Text.Tidy s.text ∧ s.text ⊆ ' ' :: segmentAlphabet := by
  have hrange := s.range.text_subset
  have hbase : Text.Tidy s.range.text := .of_subset (by decide) hrange (by simp [ColonRange.text])
  have hsub {t : Text} (ht : t ⊆ segmentAlphabet) : t ⊆ ' ' :: segmentAlphabet :=
    fun c hc => List.mem_cons_of_mem _ (ht hc)
  have hspace {t u : Text} (ht : t ⊆ segmentAlphabet) (hu : u ⊆ ' ' :: segmentAlphabet) :
      t ++ ' ' :: u ⊆ ' ' :: segmentAlphabet :=
    List.append_subset.2 ⟨hsub ht, List.cons_subset.2 ⟨List.mem_cons_self, hu⟩⟩
  have hdays : Text.Tidy (s.days.elim [] (·.text ++ [' ']) ++ s.range.text) ∧
      s.days.elim [] (·.text ++ [' ']) ++ s.range.text ⊆ ' ' :: segmentAlphabet := by
    cases s.days with
    | none => exact ⟨hbase, hsub hrange⟩
    | some l =>
      have htext : l.text ++ [' '] ++ s.range.text = l.text ++ ' ' :: s.range.text := by simp
      show Text.Tidy (l.text ++ [' '] ++ s.range.text) ∧ l.text ++ [' '] ++ s.range.text ⊆ _
      rw [htext]
      exact ⟨tidy_qualifier l.text_subset l.text_ne_nil hbase (hsub hrange),
        hspace l.text_subset (hsub hrange)⟩
  rw [text, qualifierText, List.append_assoc]
  cases s.months with
  | none => exact hdays
  | some m =>
    have hne : m.text ≠ [] := by simp [MonthSpan.text]
    have htext (u : Text) : m.text ++ [' '] ++ u = m.text ++ ' ' :: u := by simp
    show Text.Tidy (m.text ++ [' '] ++ _) ∧ m.text ++ [' '] ++ _ ⊆ _
    rw [htext]
    exact ⟨tidy_qualifier m.text_subset hne hdays.1 hdays.2, hspace m.text_subset hdays.2⟩

/-! ## The window of a segment -/

theorem window?_range : s.range.window? = some
    { TimeWindow.between s.start (some s.finish) with
      crossesMidnight := decide (24 ≤ s.range.finish.hour.value ∨
        s.finish.minuteOfDay ≤ s.start.minuteOfDay) } := by
  have hstart : s.range.start.time? = some (s.start, false) := by
    have hhour := s.start_hour
    have hmod : s.range.start.hour.value % 24 = s.range.start.hour.value := Nat.mod_eq_of_lt hhour
    have hlate : ¬ 24 ≤ s.range.start.hour.value := by omega
    simp [ColonTime.time?, ClockTime.ofWritten?, ClockTime.ofHourMinute?, hmod, hhour,
      s.start_minute, hlate, start]
    omega
  have hfinish : s.range.finish.time? =
      some (s.finish, decide (24 ≤ s.range.finish.hour.value)) := by
    have hhour : s.range.finish.hour.value ≤ 47 := Nat.le_of_lt_succ s.finish_hour
    have hmod : s.range.finish.hour.value % 24 < 24 := Nat.mod_lt _ (by decide)
    simp [ColonTime.time?, ClockTime.ofWritten?, ClockTime.ofHourMinute?, hhour, hmod,
      s.finish_minute, finish]
  simp [ColonRange.window?, hstart, hfinish, TimeWindow.between, Bool.or_comm, Bool.decide_or]

/-! ## The scope that is carried -/

/-- The scope behind segments of a statement. -/
def scopeAfter (earlier : List SegmentText) : Scope :=
  { months := (latestMonths earlier).toList, days := (latestDays earlier).map DayList.scope }

theorem latestMonths_append (earlier : List SegmentText) :
    latestMonths (earlier ++ [s]) = (s.months.map MonthSpan.range).or (latestMonths earlier) := by
  cases hm : s.months <;> simp [latestMonths, hm, List.filterMap_append]

theorem latestDays_append (earlier : List SegmentText) :
    latestDays (earlier ++ [s]) = s.days.or (latestDays earlier) := by
  cases hd : s.days <;> simp [latestDays, hd, List.filterMap_append]

/-- The qualifiers of a segment enter the scope that the segments in front of it have left. -/
theorem enter_scopeAfter (earlier : List SegmentText) :
    (scopeAfter earlier).enter s.qualifiers = scopeAfter (earlier ++ [s]) := by
  rw [scopeAfter, scopeAfter, latestMonths_append, latestDays_append]
  cases hm : s.months <;> cases hd : s.days <;> simp [Scope.enter, qualifiers, hm, hd,
    DayScope.mergeInto]

/-- The scope of a segment puts the months and days named last on its window. -/
theorem apply_scopeAfter (earlier : List SegmentText) (w : TimeWindow) (hdays : w.days = none)
    (hholidays : w.includesHolidays = true) :
    (scopeAfter earlier).apply w =
      { w with
        months := (latestMonths earlier).toList
        days := (latestDays earlier).map (.ofList ·.weekdays)
        includesHolidays := (latestDays earlier).all (·.holiday) } := by
  cases hl : latestDays earlier with
  | none => simp [Scope.apply, scopeAfter, hl, ← hdays, ← hholidays]
  | some l => simp [Scope.apply, scopeAfter, hl, l.onDays_scope]

/-- A segment is read as its window, and leaves the scope behind it. -/
theorem read_scopeAfter (earlier : List SegmentText) :
    Segment.read (scopeAfter earlier) s.text =
      (.windows [s.windowAfter earlier], scopeAfter (earlier ++ [s])) := by
  obtain ⟨rest, hextract, hsilent⟩ := s.extract_qualifierText
  have htext : s.text = s.qualifierText ++ (s.range.text ++ []) := by
    rw [List.append_nil, text]
  have hplain : s.qualifierText ++ (s.range.text ++ []) ⊆ plainAlphabet := by
    rw [← htext]
    exact List.Subset.trans s.tidy_text.2 (by decide)
  have htidy := s.tidy_text.1
  rw [htext] at htidy
  have hread := Segment.read_range hplain htidy (by rw [hextract]; exact hsilent)
    (s.skips_qualifierText _) (fails_word rfl) rfl (scopeAfter earlier)
  rw [htext, hread, hextract]
  simp only [s.window?_range, enter_scopeAfter, finishWindow]
  rw [apply_scopeAfter _ _ rfl rfl]
  simp [TimeWindow.addNotes, TimeWindow.between, windowAfter]

end SegmentText

end OpeningHours
