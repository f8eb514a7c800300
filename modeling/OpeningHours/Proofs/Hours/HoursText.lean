import Mathlib.Data.List.Basic
import OpeningHours.Proofs.Hours.SegmentText

/-!
# Texts of opening times as they are written

A text of opening times is written as statements on lines of their own, a statement as segments with
commas between them. This file says what such a text means, and shows that it is read as that
(**`HoursText.ofText_text`**):

* one window for each segment, in the order of the text;
* each window has the months and the days named last in its statement, up to its own segment;
* nothing is carried from one statement to the next.

The induction runs along the segments of a statement, from any segments that have been read before
(`readSegments_scopeAfter`).
-/

namespace OpeningHours

/-! ## What is written, and what is meant -/

/-- A statement: segments with commas between them. -/
structure StatementText where
  segments : List SegmentText
  ne : segments ≠ []

namespace StatementText

/-- The statement as it is written. -/
def text (s : StatementText) : Text :=
  ['、'].intercalate (s.segments.map SegmentText.text)

/-- The windows of the statement. -/
def windows (s : StatementText) : List TimeWindow :=
  s.segments.mapIdx fun i segment => segment.windowAfter (s.segments.take i)

end StatementText

/-- A text of opening times: statements on lines of their own. -/
structure HoursText where
  statements : List StatementText
  ne : statements ≠ []

namespace HoursText

/-- The text as it is written. -/
def text (t : HoursText) : Text :=
  ['\n'].intercalate (t.statements.map StatementText.text)

/-- The windows of all statements. -/
def windows (t : HoursText) : List TimeWindow :=
  t.statements.flatMap StatementText.windows

end HoursText

/-! ## Statements -/

namespace OpeningTimes

/-- **Each segment of a statement is read as its window**, whatever segments stand in front. -/
theorem readSegments_scopeAfter (earlier later : List SegmentText) :
    readSegments (SegmentText.scopeAfter earlier) (later.map SegmentText.text) =
      (later.mapIdx fun i s => s.windowAfter (earlier ++ later.take i), []) := by
  induction later generalizing earlier with
  | nil => rfl
  | cons s later ih =>
    have htail := ih (earlier ++ [s])
    simp only [List.map_cons, readSegments, s.read_scopeAfter earlier, htail]
    simp [List.mapIdx_cons]

end OpeningTimes

namespace StatementText

variable (s : StatementText)

theorem segments_tidy : ∀ t ∈ s.segments.map SegmentText.text,
    Text.Tidy t ∧ t ⊆ ' ' :: segmentAlphabet := by
  intro t ht
  obtain ⟨segment, -, rfl⟩ := List.mem_map.1 ht
  exact segment.tidy_text

theorem map_text_ne_nil : s.segments.map SegmentText.text ≠ [] := by
  simpa using s.ne

/-- A statement is cut into its segments. -/
theorem splitTopLevel_text :
    Text.splitTopLevel isSegmentMark s.text = s.segments.map SegmentText.text := by
  have hinner : (' ' :: segmentAlphabet).all (Text.isInner isSegmentMark) = true := by decide
  refine Text.splitTopLevel_intercalate s.map_text_ne_nil ?_ ?_ rfl
  · intro t ht c hc
    exact List.all_eq_true.1 hinner c ((s.segments_tidy t ht).2 hc)
  · intro t ht
    exact (s.segments_tidy t ht).1.not_isAllBlank

/-- **A statement is read as its windows.** -/
theorem readStatement_text : OpeningTimes.readStatement s.text = (s.windows, []) := by
  have hread := OpeningTimes.readSegments_scopeAfter [] s.segments
  have hscope : SegmentText.scopeAfter [] = {} := rfl
  rw [hscope] at hread
  rw [OpeningTimes.readStatement, s.splitTopLevel_text, hread]
  rfl

theorem tidy_text : Text.Tidy s.text :=
  Text.intercalate_induction (fun _ _ ht hu => ht.append_cons (by decide) hu) s.map_text_ne_nil
    fun t ht => (s.segments_tidy t ht).1

theorem text_subset : s.text ⊆ '、' :: ' ' :: segmentAlphabet := by
  refine Text.intercalate_subset List.mem_cons_self fun t ht => ?_
  exact fun c hc => List.mem_cons_of_mem _ ((s.segments_tidy t ht).2 hc)

end StatementText

/-! ## Whole texts -/

namespace HoursText

variable (t : HoursText)

theorem map_text_ne_nil : t.statements.map StatementText.text ≠ [] := by
  simpa using t.ne

theorem tidy_text : Text.Tidy t.text := by
  refine Text.intercalate_induction (fun _ _ ht hu => ht.line hu) t.map_text_ne_nil fun u hu => ?_
  obtain ⟨s, -, rfl⟩ := List.mem_map.1 hu
  exact s.tidy_text

theorem text_subset : t.text ⊆ plainAlphabet := by
  refine Text.intercalate_subset (by decide) fun u hu => ?_
  obtain ⟨s, -, rfl⟩ := List.mem_map.1 hu
  exact List.Subset.trans s.text_subset (by decide)

/-- A text is cut into its statements. -/
theorem splitTopLevel_text :
    Text.splitTopLevel isStatementMark t.text = t.statements.map StatementText.text := by
  have hinner : ('、' :: ' ' :: segmentAlphabet).all (Text.isInner isStatementMark) = true := by
    decide
  refine Text.splitTopLevel_intercalate t.map_text_ne_nil ?_ ?_ rfl
  · intro u hu c hc
    obtain ⟨s, -, rfl⟩ := List.mem_map.1 hu
    exact List.all_eq_true.1 hinner c (s.text_subset hc)
  · intro u hu
    obtain ⟨s, -, rfl⟩ := List.mem_map.1 hu
    exact s.tidy_text.not_isAllBlank

theorem readStatements_text : OpeningTimes.readStatements t.text = (t.windows, []) := by
  have hread : OpeningTimes.readStatement ∘ StatementText.text = fun s => (s.windows, []) :=
    funext fun s => s.readStatement_text
  simp [OpeningTimes.readStatements, t.splitTopLevel_text, hread, windows, List.flatMap_map]

theorem windows_ne_nil : t.windows ≠ [] := by
  obtain ⟨s, rest, hs⟩ := List.exists_cons_of_ne_nil t.ne
  obtain ⟨segment, segments, hsegments⟩ := List.exists_cons_of_ne_nil s.ne
  simp [windows, hs, StatementText.windows, hsegments]

/-- **A text of opening times is read as what it means:** it is its own normal form, its windows
are those of its segments, and nothing else is said. -/
theorem ofText_text :
    OpeningTimes.ofText (some t.text) =
      { raw := some t.text, normalized := some t.text, windows := t.windows } := by
  have hsome : t.windows.isEmpty = false := by simpa using t.windows_ne_nil
  rw [OpeningTimes.ofText_of_plain t.tidy_text t.text_subset, t.readStatements_text, hsome]

/-- A range behind another one keeps its season and its days. The same range on a line of its own has
neither. -/
theorem ofText_summerHours :
    let morning : SegmentText :=
      { months := some ⟨.one (.of 4), .two (.of 1) (.of 0), by decide, by decide⟩
        days := some ⟨[.sat, .sun], true, by decide⟩
        range := ⟨⟨.one (.of 9), .of 0, .of 0⟩, ⟨.two (.of 1) (.of 7), .of 0, .of 0⟩⟩
        start_hour := by decide
        start_minute := by decide
        finish_hour := by decide
        finish_minute := by decide }
    let night : SegmentText :=
      { months := none
        days := none
        range := ⟨⟨.two (.of 1) (.of 8), .of 0, .of 0⟩, ⟨.two (.of 2) (.of 5), .of 3, .of 0⟩⟩
        start_hour := by decide
        start_minute := by decide
        finish_hour := by decide
        finish_minute := by decide }
    let hours : HoursText :=
      ⟨[⟨[morning, night], List.cons_ne_nil _ _⟩, ⟨[night], List.cons_ne_nil _ _⟩],
        List.cons_ne_nil _ _⟩
    hours.text = "4月~10月 土・日・祝 9:00~17:00、18:00~25:30\n18:00~25:30".toList ∧
    OpeningTimes.ofText (some hours.text) =
      { raw := some hours.text
        normalized := some hours.text
        windows := [
          { start := ⟨540, by decide⟩
            finish := some ⟨1020, by decide⟩
            crossesMidnight := false
            days := some (.ofList [.sat, .sun])
            months := [⟨4, 10⟩] },
          { start := ⟨1080, by decide⟩
            finish := some ⟨90, by decide⟩
            crossesMidnight := true
            days := some (.ofList [.sat, .sun])
            months := [⟨4, 10⟩] },
          { start := ⟨1080, by decide⟩
            finish := some ⟨90, by decide⟩
            crossesMidnight := true }] } := by
  refine ⟨by decide, ?_⟩
  rw [ofText_text]
  rfl

end HoursText

end OpeningHours
