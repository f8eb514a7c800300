import Mathlib.Data.List.Chain
import OpeningHours.Hours.Segment
import OpeningHours.Proofs.Scope.DayText
import OpeningHours.Proofs.Text.Pieces

/-!
# Lists of days with dots

Tokens that name days add up to one scope (`DayToken.scope`, `DayToken.scope_append`), and a text of
such tokens is read as that scope (**`DayToken.extractDays_scope`**).

`DayList` is a list of weekday kanji with dots between them, perhaps with the public holidays at its
end: `月・水・金`, `土・日・祝`, `祝`. A text that holds such a list between blanks is about the
weekdays of the list, and about holidays exactly if they are named (**`DayList.extractDays_text`**).
A window on these days has the weekdays of the list and applies on holidays exactly if they are
named (`DayList.onDays_scope`).
-/

namespace OpeningHours

/-! ## Sets of listed weekdays -/

namespace WeekdaySet

theorem contains_foldl_insert (s : WeekdaySet) (days : List Weekday) (d : Weekday) :
    (days.foldl insert s).contains d = (s.contains d || decide (d ∈ days)) := by
  induction days generalizing s with
  | nil => simp
  | cons e days ih =>
    rw [List.foldl_cons, ih, contains_insert, Bool.or_assoc]
    by_cases hd : d = e
    · simp [hd]
    · simp [hd, beq_eq_false_iff_ne.2 hd]

@[simp] theorem contains_ofList (days : List Weekday) (d : Weekday) :
    (ofList days).contains d = decide (d ∈ days) := by
  rw [ofList, contains_foldl_insert, contains_empty, Bool.false_or]

theorem isEmpty_of_contains {s : WeekdaySet} {d : Weekday} (hd : s.contains d = true) :
    s.isEmpty = false := by
  rw [← Bool.not_eq_true, isEmpty_iff]
  exact fun hnone => Bool.false_ne_true ((hnone d).symm.trans hd)

theorem isEmpty_ofList {days : List Weekday} (hne : days ≠ []) :
    (ofList days).isEmpty = false := by
  obtain ⟨d, rest, rfl⟩ := List.exists_cons_of_ne_nil hne
  exact isEmpty_of_contains (d := d) (by simp)

end WeekdaySet

/-! ## Items with dots between them -/

namespace DayToken

variable {items tokens : List DayToken}

/-- The items with dots between them. -/
def dotted (items : List DayToken) : List DayToken :=
  items.intersperse .dot

theorem dotted_cons_cons (a b : DayToken) (items : List DayToken) :
    dotted (a :: b :: items) = a :: dot :: dotted (b :: items) := rfl

theorem weekdays_append (a b : List DayToken) : weekdays (a ++ b) = weekdays a ++ weekdays b :=
  List.filterMap_append

theorem weekdays_cons (a : DayToken) (tokens : List DayToken) :
    weekdays (a :: tokens) = a.weekday?.toList ++ weekdays tokens := by
  rw [weekdays, List.filterMap_cons]
  cases a.weekday? <;> rfl

theorem texts_dotted (items : List DayToken) :
    texts (dotted items) = ['・'].intercalate (items.map text) := by
  match items with
  | [] => rfl
  | [a] => simp [dotted]
  | a :: b :: items =>
    have ih := texts_dotted (b :: items)
    rw [dotted_cons_cons, texts_cons, texts_cons, ih]
    simp [text, List.intercalate_cons_cons]

theorem weekdays_dotted (items : List DayToken) : weekdays (dotted items) = weekdays items := by
  match items with
  | [] => rfl
  | [a] => rfl
  | a :: b :: items =>
    have ih := weekdays_dotted (b :: items)
    rw [dotted_cons_cons, weekdays_cons, weekdays_cons dot, ih, weekdays_cons a]
    rfl

theorem count_holiday_dotted (items : List DayToken) :
    (dotted items).count .holiday = items.count .holiday := by
  match items with
  | [] => rfl
  | [a] => rfl
  | a :: b :: items =>
    have ih := count_holiday_dotted (b :: items)
    rw [dotted_cons_cons, List.count_cons, List.count_cons_of_ne (by decide), ih, ← List.count_cons]

/-- Dots and marks keep the holidays apart. -/
theorem holidaysApart_dotted (items : List DayToken) {mark : DayToken} (hmark : mark.isMark = true)
    (htokens : HolidaysApart (mark :: tokens)) :
    HolidaysApart (dotted items ++ mark :: tokens) := by
  match items with
  | [] => exact htokens
  | [a] => exact List.isChain_cons_cons.2 ⟨fun _ => hmark, htokens⟩
  | a :: b :: items =>
    have ih := holidaysApart_dotted (b :: items) hmark htokens
    rw [dotted_cons_cons]
    refine List.isChain_cons_cons.2 ⟨fun _ => rfl, List.isChain_cons.2 ⟨?_, ih⟩⟩
    intro next _ hdot
    exact absurd hdot (by decide)

theorem holidaysApart_cons {mark : DayToken} (hmark : mark.isMark = true)
    (htokens : HolidaysApart tokens) : HolidaysApart (mark :: tokens) := by
  refine List.isChain_cons.2 ⟨?_, htokens⟩
  rintro next - rfl
  exact absurd hmark (by decide)

end DayToken

/-! ## What lists of mentions add up to -/

namespace DayScope

theorem foldl_add_weekdays (s : DayScope) (days : List Weekday) :
    (days.map fun d => DayMention.weekdays (.single d)).foldl add s =
      { s with weekdays := days.foldl WeekdaySet.insert s.weekdays } := by
  induction days generalizing s with
  | nil => rfl
  | cons d days ih => exact ih _

/-- The scope of a list of weekdays that perhaps names the holidays. -/
def named (days : List Weekday) (holiday : Bool) : DayScope :=
  { weekdays := .ofList days, holidays := if holiday then .included else .unspecified }

theorem ofMentions?_weekdays {days : List Weekday} (hne : days ≠ []) :
    ofMentions? (days.map fun d => .weekdays (.single d)) = some (named days false) := by
  have hmap : (days.map fun d => DayMention.weekdays (.single d)).isEmpty = false := by
    simpa using hne
  rw [ofMentions?, hmap, foldl_add_weekdays]
  rfl

theorem ofMentions?_holidays (days : List Weekday) :
    ofMentions? (.holidays :: days.map fun d => .weekdays (.single d)) =
      some (named days true) := by
  rw [ofMentions?, List.foldl_cons, foldl_add_weekdays]
  rfl

theorem foldl_add_holidays {s : DayScope} (hs : s.holidays ≠ .unspecified) (n : Nat) :
    (List.replicate n DayMention.holidays).foldl add s = s := by
  have hadd : s.add .holidays = s := by simp [add, hs]
  induction n with
  | zero => rfl
  | succ n ih => rw [List.replicate_succ, List.foldl_cons, hadd, ih]

/-- Holidays may be mentioned several times. -/
theorem ofMentions?_named {n : Nat} {days : List Weekday} (h : n ≠ 0 ∨ days ≠ []) :
    ofMentions? (List.replicate n .holidays ++ days.map fun d => .weekdays (.single d)) =
      some (named days (decide (n ≠ 0))) := by
  cases n with
  | zero => exact ofMentions?_weekdays (h.resolve_left (not_not_intro rfl))
  | succ n =>
    have hone := ofMentions?_holidays days
    simp only [ofMentions?, List.replicate_succ, List.cons_append, List.isEmpty_cons,
      Bool.false_eq_true, if_false, List.foldl_cons, List.foldl_append] at hone ⊢
    rw [foldl_add_holidays (by decide), hone]
    rfl

theorem merge_named (a b : List Weekday) (x y : Bool) :
    (named a x).merge (named b y) = named (a ++ b) (x || y) := by
  have hdays : (WeekdaySet.ofList a).union (.ofList b) = .ofList (a ++ b) :=
    WeekdaySet.ext_contains fun d => by simp [Bool.decide_or]
  simp only [merge, named, hdays]
  cases x <;> cases y <;> rfl

end DayScope

/-! ## What tokens add up to -/

namespace DayToken

variable {tokens : List DayToken}

/-- Some token names the holidays or a weekday. -/
def NamesDays (tokens : List DayToken) : Prop :=
  .holiday ∈ tokens ∨ weekdays tokens ≠ []

/-- The scope that tokens add up to, marks aside. -/
def scope (tokens : List DayToken) : DayScope :=
  .named (weekdays tokens) (decide (.holiday ∈ tokens))

theorem namesDays_of_mem {token : DayToken} (htoken : token ∈ tokens)
    (hmark : token.isMark = false) : NamesDays tokens := by
  have hday {d : Weekday} (hd : token.weekday? = some d) : NamesDays tokens :=
    .inr (List.ne_nil_of_mem (List.mem_filterMap.2 ⟨token, htoken, hd⟩))
  cases token with
  | kanji d => exact hday rfl
  | spelled d => exact hday rfl
  | holiday => exact .inl htoken
  | dot => exact absurd hmark (by decide)
  | comma => exact absurd hmark (by decide)
  | space => exact absurd hmark (by decide)

/-- **Days add up in the same way wherever they stand.** -/
theorem scope_append (a b : List DayToken) : scope (a ++ b) = (scope a).merge (scope b) := by
  rw [scope, scope, scope, DayScope.merge_named, weekdays_append]
  simp only [List.mem_append, Bool.decide_or]

theorem holiday_mem_dotted (items : List DayToken) :
    .holiday ∈ dotted items ↔ .holiday ∈ items := by
  rw [← List.count_pos_iff, ← List.count_pos_iff, count_holiday_dotted]

/-- A space behind tokens names nothing. -/
theorem weekdays_append_space (tokens : List DayToken) :
    weekdays (tokens ++ [.space]) = weekdays tokens := by
  rw [weekdays_append]
  exact List.append_nil _

theorem scope_append_space (tokens : List DayToken) :
    scope (tokens ++ [.space]) = scope tokens := by
  simp [scope, weekdays_append_space]

theorem scope_dotted (items : List DayToken) : scope (dotted items) = scope items := by
  rw [scope, scope, weekdays_dotted, decide_eq_decide.2 (holiday_mem_dotted items)]

/-- Tokens that name days are read as the scope that they add up to. -/
theorem extractDays_scope (hapart : HolidaysApart tokens) (hdays : NamesDays tokens) :
    extractDays (texts tokens) = (some (scope tokens), tokens.flatMap left) := by
  have hcount : tokens.count .holiday ≠ 0 ↔ .holiday ∈ tokens := by
    rw [← Nat.pos_iff_ne_zero, List.count_pos_iff]
  have hsome := hdays.imp_left hcount.2
  rw [extractDays_texts hapart, DayScope.ofMentions?_named hsome, scope, decide_eq_decide.2 hcount]

end DayToken

/-! ## Lists of days -/

/-- A list of weekdays that perhaps names the public holidays at its end. -/
structure DayList where
  weekdays : List Weekday
  holiday : Bool
  ne : weekdays ≠ [] ∨ holiday = true

namespace DayList

open DayToken

/-- The members of the list. -/
def items (l : DayList) : List DayToken :=
  l.weekdays.map .kanji ++ if l.holiday then [.holiday] else []

/-- The list as it is written. -/
def text (l : DayList) : Text :=
  ['・'].intercalate (l.items.map DayToken.text)

/-- The scope that the list stands for. -/
def scope (l : DayList) : DayScope :=
  .named l.weekdays l.holiday

theorem weekdays_items (l : DayList) : DayToken.weekdays l.items = l.weekdays := by
  have hkanji : ∀ days : List Weekday, (days.map DayToken.kanji).filterMap weekday? = days := by
    intro days
    rw [List.filterMap_map]
    exact List.filterMap_some
  rw [items, DayToken.weekdays, List.filterMap_append, hkanji]
  cases l.holiday <;> simp [weekday?]

theorem holiday_mem_items (l : DayList) : .holiday ∈ l.items ↔ l.holiday = true := by
  simp [items]

theorem text_ne_nil (l : DayList) : l.text ≠ [] := by
  have hitems : l.items.map DayToken.text ≠ [] := by
    cases hdays : l.weekdays with
    | nil =>
      have hholiday : l.holiday = true := by simpa [hdays] using l.ne
      simp [items, hholiday]
    | cons d days => simp [items, hdays]
  refine Text.intercalate_induction (P := (· ≠ [])) (fun t u _ _ => by simp) hitems fun t ht => ?_
  obtain ⟨token, -, rfl⟩ := List.mem_map.1 ht
  cases token <;> simp [DayToken.text]

theorem texts_tokens (l : DayList) (marks : List DayToken) :
    texts (marks ++ (dotted l.items ++ [.space])) =
      texts marks ++ (l.text ++ [' ']) := by
  rw [texts_append, texts_append, texts_dotted]
  rfl

/-- **A list of days is read as its scope**, whatever marks stand in front of it. -/
theorem extractDays_text (l : DayList) (marks : List DayToken)
    (hmarks : ∀ mark ∈ marks, mark.isMark = true) :
    ∃ rest, extractDays (texts marks ++ (l.text ++ [' '])) = (some l.scope, rest) ∧
      Text.isSilent rest = true := by
  have hapart : HolidaysApart (marks ++ (dotted l.items ++ [.space])) := by
    have hlist : HolidaysApart (dotted l.items ++ [.space]) :=
      holidaysApart_dotted l.items rfl (List.isChain_singleton _)
    induction marks with
    | nil => exact hlist
    | cons mark marks ih =>
      exact holidaysApart_cons (hmarks mark List.mem_cons_self)
        (ih fun m hm => hmarks m (List.mem_cons_of_mem mark hm))
  have hmarkDays : DayToken.weekdays marks = [] := by
    rw [DayToken.weekdays, List.filterMap_eq_nil_iff]
    intro mark hmark
    have := hmarks mark hmark
    cases mark <;> simp_all [isMark, weekday?]
  have hdays : DayToken.weekdays (marks ++ (dotted l.items ++ [.space])) = l.weekdays := by
    rw [weekdays_append, hmarkDays, List.nil_append, weekdays_append_space, weekdays_dotted,
      l.weekdays_items]
  have hholiday : .holiday ∈ marks ++ (dotted l.items ++ [.space]) ↔ l.holiday = true := by
    have hnone : .holiday ∉ marks := fun hmem => absurd (hmarks _ hmem) (by decide)
    simp [hnone, holiday_mem_dotted, l.holiday_mem_items]
  have hnames : NamesDays (marks ++ (dotted l.items ++ [.space])) := by
    rw [NamesDays, hdays, hholiday]
    exact l.ne.symm
  have hscope : DayToken.scope (marks ++ (dotted l.items ++ [.space])) = l.scope := by
    simp only [DayToken.scope, scope, hdays, hholiday, Bool.decide_eq_true]
  refine ⟨_, ?_, isSilent_left (marks ++ (dotted l.items ++ [.space]))⟩
  rw [← l.texts_tokens, extractDays_scope hapart hnames, hscope]

/-! ## Windows on the days of a list -/

/-- A window on the days of a list has these weekdays, and applies on holidays exactly if they are
named. -/
theorem onDays_scope (l : DayList) (w : TimeWindow) :
    w.onDays l.scope =
      { w with days := some (.ofList l.weekdays), includesHolidays := l.holiday } := by
  have hdays : TimeWindow.daysOf l.scope = some (.ofList l.weekdays) := by
    by_cases hne : l.weekdays = []
    · have hholiday : l.holiday = true := l.ne.resolve_left (not_not_intro hne)
      rw [scope, hne, hholiday]
      rfl
    · simp [TimeWindow.daysOf, scope, DayScope.named, WeekdaySet.isEmpty_ofList hne]
  rw [TimeWindow.onDays, hdays, scope, DayScope.named]
  cases l.holiday <;> rfl

end DayList

end OpeningHours
