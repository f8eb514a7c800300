import Mathlib.Data.List.Basic
import OpeningHours.Proofs.Hours.LateHours
import OpeningHours.Proofs.Scope.DayList
import OpeningHours.Proofs.Text.Pieces

/-!
# Days listed with commas and with dots

The days in front of a range of clock times are listed with dots or with commas:
`月・水曜日・祝 9:00~17:00` and `月、水曜日、祝 9:00~17:00`. A dot keeps the days in one segment, which
is read as a whole. A comma ends a segment, so every day but the last stands in a segment of its
own; it waits there, joined to the days that wait already, for the segment with the range.

Days add up in the same way wherever they stand (`DayToken.scope_append`). So a segment with days
and a range means the same whether the days in front of its own wait or stand in it
(`read_tokens_range`), and both ways of writing give one window on all the days and no notes
(**`ListedHours.commas_and_dots_agree`**).
-/

namespace OpeningHours

open Pattern

/-! ## Days in a segment -/

namespace DayToken

variable {tokens : List DayToken}

theorem not_isDigit {c : Char} (hc : c ∈ texts tokens) : c.isDigit = false := by
  have hall : (alphabet.all fun c => !c.isDigit) = true := by decide
  simpa using List.all_eq_true.1 hall c (texts_subset tokens hc)

theorem extract_scope (hapart : HolidaysApart tokens) (hdays : NamesDays tokens) :
    Qualifiers.extract (texts tokens) = (⟨[], some (scope tokens)⟩, tokens.flatMap left) :=
  Qualifiers.extract_eq (extractMonths_of_no_digit fun _ => not_isDigit)
    (extractDays_scope hapart hdays)

theorem skips_timeRange (tokens : List DayToken) (rest : Text) :
    Wording.timeRange.Skips (texts tokens) rest :=
  skips_of_mayStart (fun c hc => by rw [mayStart_timeRange, not_isDigit hc]) rest

theorem tidy_text {token : DayToken} (hmark : token.isMark = false) : Text.Tidy token.text := by
  have hword : (alphabet.filter (· != ' ')).all Text.isWordPart = true := by decide
  refine .of_subset hword ?_ ?_
  · cases token with
    | kanji d => cases d <;> decide
    | spelled d => cases d <;> decide
    | holiday => decide
    | dot => decide
    | comma => decide
    | space => exact absurd hmark (by decide)
  · cases token <;> simp [text]

theorem texts_subset_plain (tokens : List DayToken) : texts tokens ⊆ plainAlphabet :=
  List.Subset.trans (texts_subset tokens) (by decide)

end DayToken

/-! ## Segments of days -/

open DayToken

variable {earlier tokens : List DayToken} {r : ColonRange}

/-- The scope behind segments that hold the tokens. -/
def waitingFor (tokens : List DayToken) : Scope :=
  { waiting := if tokens.isEmpty then none else some (scope tokens) }

theorem mergeInto_waiting (earlier tokens : List DayToken) :
    DayScope.mergeInto (waitingFor earlier).waiting (scope tokens) = scope (earlier ++ tokens) := by
  cases earlier with
  | nil => rfl
  | cons a earlier => exact (scope_append (a :: earlier) tokens).symm

/-- A segment of days says nothing. They wait, joined to those that wait already. -/
theorem read_tokens (earlier : List DayToken) (hapart : HolidaysApart tokens)
    (hdays : NamesDays tokens) (htidy : Text.Tidy (texts tokens)) :
    Segment.read (waitingFor earlier) (texts tokens) =
      (.silent, waitingFor (earlier ++ tokens)) := by
  have hrange : Wording.timeRange.occursIn (texts tokens) = false := by
    rw [occursIn, find?_eq_none_of_skips (skips_timeRange tokens [])]
    rfl
  have honly : Qualifiers.only? (texts tokens) = some ⟨[], some (scope tokens)⟩ := by
    simp [Qualifiers.only?, extract_scope hapart hdays, Qualifiers.isEmpty,
      Text.remainder?_eq_none (isSilent_left tokens)]
  have hhold : (waitingFor earlier).hold ⟨[], some (scope tokens)⟩ =
      waitingFor (earlier ++ tokens) := by
    have hne : (earlier ++ tokens).isEmpty = false := by
      cases tokens with
      | nil => exact absurd hdays (by simp [NamesDays, weekdays])
      | cons token tokens => simp
    simp only [Scope.hold, mergeInto_waiting]
    simp [waitingFor, hne]
  have hsome : (texts tokens).isEmpty = false := by simpa using htidy.ne_nil
  simp only [Segment.read, htidy.trim, hsome, Bool.false_eq_true, if_false,
    extractLastAdmission_of_plain (texts_subset_plain tokens), hrange, Segment.readPlain, honly,
    hhold]

/-- **A segment with days and a range** means the range on these days and those that wait. -/
theorem read_tokens_range (earlier : List DayToken) (hapart : HolidaysApart tokens)
    (hdays : NamesDays tokens) (htidy : Text.Tidy (texts tokens ++ r.text))
    {w : TimeWindow} (hw : r.window? = some w) (hmonths : w.months = []) (hnotes : w.notes = []) :
    ∃ behind, Segment.read (waitingFor earlier) (texts tokens ++ r.text) =
      (.windows [w.onDays (scope (earlier ++ tokens))], behind) := by
  have henter : (waitingFor earlier).enter ⟨[], some (scope tokens)⟩ =
      { days := some (scope (earlier ++ tokens)) } := by
    simp only [Scope.enter, mergeInto_waiting]
    rfl
  rw [← List.append_nil r.text] at htidy ⊢
  have hplain : texts tokens ++ (r.text ++ []) ⊆ plainAlphabet := by
    rw [List.append_nil]
    exact List.append_subset.2 ⟨texts_subset_plain tokens,
      List.Subset.trans r.text_subset (by decide)⟩
  have hread := Segment.read_range hplain htidy
    (by rw [extract_scope hapart hdays]; exact Text.remainder?_eq_none (isSilent_left tokens))
    (skips_timeRange tokens _) (fails_word rfl) rfl (waitingFor earlier)
  rw [extract_scope hapart hdays, hw, henter] at hread
  have hwindow : finishWindow { days := some (scope (earlier ++ tokens)) } [] none w =
      w.onDays (scope (earlier ++ tokens)) := by
    simp [finishWindow, Scope.apply, TimeWindow.onDays, TimeWindow.addNotes, hnotes, ← hmonths]
  rw [← hwindow]
  exact ⟨_, hread⟩

/-- The days of segments in front of others wait. -/
theorem readSegments_waitingFor (earlier : List DayToken) {later : List DayToken}
    (hmark : ∀ token ∈ later, token.isMark = false) (segments : List Text) :
    OpeningTimes.readSegments (waitingFor earlier) (later.map text ++ segments) =
      OpeningTimes.readSegments (waitingFor (earlier ++ later)) segments := by
  induction later generalizing earlier with
  | nil => rw [List.append_nil]; rfl
  | cons token later ih =>
    have htoken : token.isMark = false := hmark token List.mem_cons_self
    have htexts : texts [token] = token.text := List.append_nil _
    have hread := read_tokens earlier (List.isChain_singleton token)
      (namesDays_of_mem (List.mem_singleton_self _) htoken) (by rw [htexts]; exact tidy_text htoken)
    rw [htexts] at hread
    have htail := ih (earlier ++ [token]) fun t ht => hmark t (List.mem_cons_of_mem _ ht)
    rw [List.append_assoc, List.singleton_append] at htail
    rw [List.map_cons, List.cons_append, OpeningTimes.readSegments, hread, ← htail]

/-! ## Listed days in front of a range -/

/-- Days with one range of clock times, which may be written with hours after midnight. -/
structure ListedHours where
  days : List DayToken
  ne : days ≠ []
  no_mark : ∀ token ∈ days, token.isMark = false
  range : ColonRange
  start_hour : range.start.hour.value ≤ 47
  start_minute : range.start.minute < 60
  finish_hour : range.finish.hour.value ≤ 47
  finish_minute : range.finish.minute < 60

namespace ListedHours

/-- The hours as they are written, the days joined by the mark. -/
def text (h : ListedHours) (mark : Char) : Text :=
  [mark].intercalate (h.days.map DayToken.text) ++ ' ' :: h.range.text

/-- The window that is meant. -/
def window (h : ListedHours) : TimeWindow where
  start := h.range.start.folded
  finish := some h.range.finish.folded
  crossesMidnight := decide (1440 ≤ h.range.finish.written ∨
    h.range.finish.folded.minuteOfDay ≤ h.range.start.folded.minuteOfDay)
  days := some (.ofList (weekdays h.days))
  includesHolidays := decide (.holiday ∈ h.days)

/-- What a text says that means the window and nothing else. -/
def reading (h : ListedHours) (t : Text) : OpeningTimes :=
  { raw := some t, normalized := some t, windows := [h.window] }

variable (h : ListedHours)

/-! ## The window -/

theorem namesDays_days : NamesDays h.days :=
  namesDays_of_mem (List.getLast_mem h.ne) (h.no_mark _ (List.getLast_mem h.ne))

theorem window?_range : h.range.window? = some
    { TimeWindow.between h.range.start.folded (some h.range.finish.folded) with
      crossesMidnight := h.window.crossesMidnight } := by
  have hstart := ColonTime.time?_eq h.start_hour h.start_minute
  have hfinish := ColonTime.time?_eq h.finish_hour h.finish_minute
  simp [ColonRange.window?, hstart, hfinish, TimeWindow.between, window, Bool.or_comm,
    Bool.decide_or]

theorem onDays_scope_days (w : TimeWindow) : w.onDays (scope h.days) =
    { w with
      days := some (.ofList (weekdays h.days))
      includesHolidays := decide (.holiday ∈ h.days) } := by
  let l : DayList :=
    { weekdays := weekdays h.days
      holiday := decide (.holiday ∈ h.days)
      ne := h.namesDays_days.symm.imp_right decide_eq_true }
  exact l.onDays_scope w

/-- A segment with days and the range means the window, if its days and those that wait are those
of the list. -/
theorem read_range (earlier : List DayToken) (hapart : HolidaysApart tokens)
    (hnames : NamesDays tokens) (htidy : Text.Tidy (texts tokens ++ h.range.text))
    (hdays : scope (earlier ++ tokens) = scope h.days) :
    ∃ behind, Segment.read (waitingFor earlier) (texts tokens ++ h.range.text) =
      (.windows [h.window], behind) := by
  obtain ⟨behind, hread⟩ := read_tokens_range earlier hapart hnames htidy
    h.window?_range rfl rfl
  rw [hdays, h.onDays_scope_days] at hread
  exact ⟨behind, hread⟩

/-! ## Characters -/

/-- The characters of days in front of a range. -/
def alphabet : List Char :=
  '曜' :: ' ' :: segmentAlphabet

theorem token_subset {token : DayToken} (hmark : token.isMark = false) :
    token.text ⊆ '曜' :: segmentAlphabet := by
  cases token with
  | kanji d => cases d <;> decide
  | spelled d => cases d <;> decide
  | holiday => decide
  | dot => decide
  | comma => exact absurd hmark (by decide)
  | space => exact absurd hmark (by decide)

/-- The segments that commas cut the text into. -/
def segments (h : ListedHours) : List Text :=
  h.days.dropLast.map DayToken.text ++ [(h.days.getLast h.ne).text ++ ' ' :: h.range.text]

theorem text_eq (mark : Char) : h.text mark = [mark].intercalate h.segments := by
  have hdays : h.days.map DayToken.text =
      h.days.dropLast.map DayToken.text ++ [(h.days.getLast h.ne).text] := by
    rw [← List.map_singleton, ← List.map_append, List.dropLast_append_getLast]
  rw [text, hdays, Text.intercalate_concat_append, segments]

theorem segments_tidy : ∀ t ∈ h.segments, Text.Tidy t ∧ t ⊆ alphabet := by
  have hmark : alphabet.all (fun c => !Text.isListMark c) = true := by decide
  have hrange : h.range.text ⊆ alphabet :=
    fun c hc => List.mem_cons_of_mem _ (List.mem_cons_of_mem _ (h.range.text_subset hc))
  have htoken {token : DayToken} (hday : token ∈ h.days) :
      Text.Tidy token.text ∧ token.text ⊆ alphabet :=
    ⟨tidy_text (h.no_mark token hday),
      List.Subset.trans (token_subset (h.no_mark token hday)) (by decide)⟩
  intro t ht
  rcases List.mem_append.1 ht with ht | ht
  · obtain ⟨token, hday, rfl⟩ := List.mem_map.1 ht
    exact htoken (List.dropLast_subset _ hday)
  · obtain rfl := List.mem_singleton.1 ht
    obtain ⟨htidy, hsub⟩ := htoken (List.getLast_mem h.ne)
    refine ⟨htidy.space_of_no_mark h.range.tidy_text fun c hc => ?_,
      List.append_subset.2 ⟨hsub, List.cons_subset.2 ⟨by decide, hrange⟩⟩⟩
    have hc' : c ∈ alphabet := (List.mem_append.1 hc).elim (fun hc => hsub hc) fun hc => hrange hc
    simpa using List.all_eq_true.1 hmark c hc'

theorem segments_ne_nil : h.segments ≠ [] := by
  simp [segments]

theorem tidy_text_joined (mark : Char) (hmark : Text.isWordPart mark = true) :
    Text.Tidy (h.text mark) := by
  rw [h.text_eq]
  exact Text.intercalate_induction (fun _ _ ht hu => ht.append_cons hmark hu) h.segments_ne_nil
    fun t ht => (h.segments_tidy t ht).1

theorem text_subset (mark : Char) : h.text mark ⊆ mark :: alphabet := by
  rw [h.text_eq]
  refine Text.intercalate_subset List.mem_cons_self fun t ht => ?_
  exact fun c hc => List.mem_cons_of_mem mark ((h.segments_tidy t ht).2 hc)

/-! ## Reading both texts -/

/-- A text whose statements are the window is read as the window. -/
theorem ofText_of_readStatements {mark : Char} (hmark : Text.isWordPart mark = true)
    (hplain : mark ∈ plainAlphabet)
    (hread : OpeningTimes.readStatements (h.text mark) = ([h.window], [])) :
    OpeningTimes.ofText (some (h.text mark)) = h.reading (h.text mark) := by
  have hsub : h.text mark ⊆ plainAlphabet :=
    List.Subset.trans (h.text_subset mark) (List.cons_subset.2 ⟨hplain, by decide⟩)
  rw [OpeningTimes.ofText_of_plain (h.tidy_text_joined mark hmark) hsub, hread]
  rfl

theorem readStatements_dots :
    OpeningTimes.readStatements (h.text '・') = ([h.window], []) := by
  have htidy := h.tidy_text_joined '・' (by decide)
  have htext : h.text '・' = texts (dotted h.days ++ [.space]) ++ h.range.text := by
    rw [text, texts_append, texts_dotted]
    simp [DayToken.text]
  have hnames : NamesDays (dotted h.days ++ [.space]) :=
    h.namesDays_days.imp (fun hday => List.mem_append_left _ ((holiday_mem_dotted _).2 hday))
      fun hdays => by rwa [weekdays_append_space, weekdays_dotted]
  have hscope : scope ([] ++ (dotted h.days ++ [.space])) = scope h.days := by
    rw [List.nil_append, scope_append_space, scope_dotted]
  obtain ⟨behind, hread⟩ := h.read_range []
    (holidaysApart_dotted h.days rfl (List.isChain_singleton _)) hnames (htext ▸ htidy) hscope
  rw [← htext] at hread
  have hstart : waitingFor [] = {} := rfl
  rw [OpeningTimes.readStatements_of_no_mark (h.text_subset _) (by decide) htidy.not_isAllBlank,
    ← hstart, OpeningTimes.readSegments, hread]
  rfl

theorem readStatements_commas :
    OpeningTimes.readStatements (h.text '、') = ([h.window], []) := by
  have htidy := h.tidy_text_joined '、' (by decide)
  have hstatement : (('、' :: alphabet).all fun c => !isStatementMark c) = true := by decide
  have hinner : alphabet.all (Text.isInner isSegmentMark) = true := by decide
  have hone : Text.splitTopLevel isStatementMark (h.text '、') = [h.text '、'] := by
    refine Text.splitTopLevel_of_no_separator (fun c hc => ?_) htidy.not_isAllBlank
    simpa using List.all_eq_true.1 hstatement c (h.text_subset _ hc)
  have hcut : Text.splitTopLevel isSegmentMark (h.text '、') = h.segments := by
    rw [h.text_eq]
    refine Text.splitTopLevel_intercalate h.segments_ne_nil ?_ ?_ rfl
    · exact fun t ht c hc => List.all_eq_true.1 hinner c ((h.segments_tidy t ht).2 hc)
    · exact fun t ht => (h.segments_tidy t ht).1.not_isAllBlank
  have htext : (h.days.getLast h.ne).text ++ ' ' :: h.range.text =
      texts [h.days.getLast h.ne, .space] ++ h.range.text := by
    simp [DayToken.text]
  have htail := h.segments_tidy _ (List.mem_append_right _ (List.mem_singleton_self _))
  have hapart : HolidaysApart [h.days.getLast h.ne, .space] :=
    List.isChain_pair.2 fun _ => rfl
  have hnames : NamesDays [h.days.getLast h.ne, .space] :=
    namesDays_of_mem List.mem_cons_self (h.no_mark _ (List.getLast_mem h.ne))
  have hscope : scope (h.days.dropLast ++ [h.days.getLast h.ne, .space]) = scope h.days := by
    calc scope (h.days.dropLast ++ [h.days.getLast h.ne, .space])
        = scope (h.days.dropLast ++ [h.days.getLast h.ne] ++ [.space]) := by
          rw [List.append_assoc, List.singleton_append]
      _ = scope h.days := by rw [scope_append_space, List.dropLast_append_getLast]
  obtain ⟨behind, hread⟩ := h.read_range _ hapart hnames (htext ▸ htail.1) hscope
  rw [← htext] at hread
  have hstart : waitingFor [] = {} := rfl
  have hmark : ∀ token ∈ h.days.dropLast, token.isMark = false :=
    fun token htoken => h.no_mark token (List.dropLast_subset _ htoken)
  have hfront := readSegments_waitingFor [] hmark
    [(h.days.getLast h.ne).text ++ ' ' :: h.range.text]
  rw [OpeningTimes.readStatements, hone, List.map_singleton, OpeningTimes.readStatement, hcut,
    ← hstart, segments, hfront, List.nil_append, OpeningTimes.readSegments, hread]
  rfl

/-- **Comma lists and dot lists of days agree:** both are read as the one window that is meant, and
nothing else is said. -/
theorem commas_and_dots_agree :
    OpeningTimes.ofText (some (h.text '、')) = h.reading (h.text '、') ∧
      OpeningTimes.ofText (some (h.text '・')) = h.reading (h.text '・') :=
  ⟨h.ofText_of_readStatements (by decide) (by decide) h.readStatements_commas,
    h.ofText_of_readStatements (by decide) (by decide) h.readStatements_dots⟩

/-- Late hours on a weekday of each spelling and on holidays: either text means the window that ends
at half past two on the day after. -/
theorem commas_and_dots_lateHours :
    let hours : ListedHours :=
      { days := [.kanji .mon, .spelled .wed, .holiday]
        ne := List.cons_ne_nil _ _
        no_mark := by decide
        range := ⟨⟨.two (.of 2) (.of 2), .of 0, .of 0⟩, ⟨.two (.of 2) (.of 6), .of 3, .of 0⟩⟩
        start_hour := by decide
        start_minute := by decide
        finish_hour := by decide
        finish_minute := by decide }
    hours.text '、' = "月、水曜日、祝 22:00~26:30".toList ∧
    hours.text '・' = "月・水曜日・祝 22:00~26:30".toList ∧
    hours.window =
      { start := ⟨1320, by decide⟩
        finish := some ⟨150, by decide⟩
        crossesMidnight := true
        days := some (.ofList [.mon, .wed]) } ∧
    OpeningTimes.ofText (some (hours.text '、')) = hours.reading (hours.text '、') ∧
    OpeningTimes.ofText (some (hours.text '・')) = hours.reading (hours.text '・') :=
  ⟨by decide, by decide, by decide, commas_and_dots_agree _⟩

end ListedHours

end OpeningHours
