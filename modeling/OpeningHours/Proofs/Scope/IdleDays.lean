import OpeningHours.ClosedDays.Reading
import OpeningHours.Proofs.Pattern.Composition
import OpeningHours.Proofs.Scope.DayList

/-!
# Mentions of days without a weekly rule

The words for days are read in passes, and the mentions add up to a scope. A scope makes a weekly
rule if it has a weekday or includes holidays. Where it makes none, each of its mentions is idle: it
names no weekday, and if it names the holidays, another mention excludes them. So each pass has read
nothing but idle words.

* `DayMention.names`, `DayMention.IsIdle`: what a mention names, and mentions that make no rule;
* `contains_weekdays_foldl_add`, `holidays_foldl_add`: what the mentions add up to;
* **`isIdle_of_weeklyRule?`**: without a rule every mention is idle;
* `IdleDayWord`: the words of idle mentions;
* **`ConsistsOf.of_extractDays`**: without a rule the passes for days take away such words only.
-/

namespace OpeningHours

open Pattern

variable {s : DayScope} {mentions : List DayMention} {t : Text}

/-! ## What mentions add up to -/

namespace DayMention

/-- Whether the mention names the weekday. -/
def names : DayMention → Weekday → Bool
  | .weekdays days, d => days.contains d
  | .sundaysAndHolidays, d => d == .sun
  | _, _ => false

/-- The mention makes no weekly rule: it names no weekday, and holidays only where they are
excluded. -/
structure IsIdle (holidaysExcluded : Prop) (m : DayMention) : Prop where
  weekdays : ∀ d, m.names d = false
  holidays : m = .holidays → holidaysExcluded

end DayMention

namespace DayScope

theorem contains_weekdays_add (s : DayScope) (m : DayMention) (d : Weekday) :
    (s.add m).weekdays.contains d = (s.weekdays.contains d || m.names d) := by
  cases m <;> simp [add, DayMention.names]

theorem contains_weekdays_foldl_add (s : DayScope) (mentions : List DayMention) (d : Weekday) :
    (mentions.foldl add s).weekdays.contains d =
      (s.weekdays.contains d || mentions.any fun m => m.names d) := by
  induction mentions generalizing s with
  | nil => simp
  | cons m mentions ih =>
    rw [List.foldl_cons, ih, contains_weekdays_add, List.any_cons, Bool.or_assoc]

/-- Holidays that are included stay so unless a later mention excludes them. -/
theorem holidays_foldl_add_of_included (hs : s.holidays = .included)
    (hnot : .noHolidays ∉ mentions) : (mentions.foldl add s).holidays = .included := by
  induction mentions generalizing s with
  | nil => exact hs
  | cons m mentions ih =>
    refine ih ?_ (fun hmem => hnot (List.mem_cons_of_mem m hmem))
    cases m with
    | noHolidays => exact absurd List.mem_cons_self hnot
    | holidays => simp [add, hs]
    | weekdays days => exact hs
    | everyDay => exact hs
    | sundaysAndHolidays => rfl

/-- A mention of holidays includes them where nothing excludes them. -/
theorem holidays_foldl_add (hs : s.holidays ≠ .excluded) (hmem : .holidays ∈ mentions)
    (hnot : .noHolidays ∉ mentions) : (mentions.foldl add s).holidays = .included := by
  induction mentions generalizing s with
  | nil => exact absurd hmem List.not_mem_nil
  | cons m mentions ih =>
    have hlater : .noHolidays ∉ mentions := fun h => hnot (List.mem_cons_of_mem m h)
    rw [List.foldl_cons]
    cases m with
    | noHolidays => exact absurd List.mem_cons_self hnot
    | holidays =>
      refine holidays_foldl_add_of_included ?_ hlater
      show (if s.holidays = .unspecified then .included else s.holidays) = HolidayMark.included
      cases hmark : s.holidays with
      | unspecified => rfl
      | included => rfl
      | excluded => exact absurd hmark hs
    | weekdays days => exact ih hs (by simpa using hmem) hlater
    | everyDay => exact ih hs (by simpa using hmem) hlater
    | sundaysAndHolidays => exact ih (by simp [add]) (by simpa using hmem) hlater

end DayScope

/-- **Mentions that make no weekly rule are idle.** -/
theorem isIdle_of_weeklyRule? {shifts exceptHolidays : Bool}
    (h : (DayScope.ofMentions? mentions).bind (fun s => weeklyRule? s shifts exceptHolidays) = none) :
    ∀ m ∈ mentions, m.IsIdle (.noHolidays ∈ mentions) := by
  intro m hm
  have hne : mentions.isEmpty = false :=
    List.isEmpty_eq_false_iff.2 (List.ne_nil_of_mem hm)
  rw [DayScope.ofMentions?, hne] at h
  have hrule : weeklyRule? (mentions.foldl DayScope.add {}) shifts exceptHolidays = none := h
  rw [weeklyRule?] at hrule
  split at hrule
  · exact absurd hrule (by simp)
  · next hnone =>
    rw [Bool.or_eq_true, not_or, decide_eq_true_eq, Bool.not_eq_true', Bool.not_eq_false] at hnone
    obtain ⟨hweekdays, hholidays⟩ := hnone
    constructor
    · intro d
      rw [← Bool.not_eq_true]
      intro hd
      have hcontains : (mentions.foldl DayScope.add {}).weekdays.contains d = true := by
        rw [DayScope.contains_weekdays_foldl_add]
        exact Bool.or_eq_true_iff.2 (.inr (List.any_eq_true.2 ⟨m, hm, hd⟩))
      rw [WeekdaySet.isEmpty_of_contains hcontains] at hweekdays
      exact Bool.false_ne_true hweekdays
    · rintro rfl
      by_contra hnot
      exact hholidays (DayScope.holidays_foldl_add (by decide) hm hnot)

/-! ## The words of idle mentions -/

/-- The words for days that make no weekly rule. Words for holidays are among them only where
holidays are excluded. -/
inductive IdleDayWord (holidaysExcluded : Prop) : Text → Prop
  | exceptHolidays {h : Hit} (hh : Wording.exceptHolidays.Spells h) :
    IdleDayWord holidaysExcluded h.taken
  | holiday {h : Hit} (hexcluded : holidaysExcluded) (hh : Wording.holiday.Spells h) :
    IdleDayWord holidaysExcluded h.taken
  /-- `毎日` and `全日`. -/
  | everyDay {h : Hit} (hh : Wording.dayGroup.Spells h) (hworkdays : h.taken ≠ "平日".toList)
    (hweekend : h.taken ≠ "週末".toList) : IdleDayWord holidaysExcluded h.taken

theorem IdleDayWord.mono {e e' : Prop} {w : Text} (hw : IdleDayWord e w) (h : e → e') :
    IdleDayWord e' w := by
  cases hw with
  | exceptHolidays hh => exact .exceptHolidays hh
  | holiday hexcluded hh => exact .holiday (h hexcluded) hh
  | everyDay hh hworkdays hweekend => exact .everyDay hh hworkdays hweekend

/-! ## The passes -/

/-- A pass whose mentions are idle has read words of the kind. -/
def DayPass.TakesIdle (holidaysExcluded : Prop) (isWord : Text → Prop) (pass : DayPass) : Prop :=
  ∀ t, (∀ m ∈ (pass t).1, m.IsIdle holidaysExcluded) → ConsistsOf isWord (pass t).2 →
    ConsistsOf isWord t

variable {holidaysExcluded : Prop} {isWord : Text → Prop}

theorem takesIdle_extract {p : Pattern} (hp : p.isPlain = true)
    {read : Option Char → Hit → Option DayMention}
    (hread : ∀ before h m, p.Spells h → read before h = some m →
      m.IsIdle holidaysExcluded → isWord h.taken) :
    DayPass.TakesIdle holidaysExcluded isWord (p.extract read) := by
  intro t hidle hleft
  exact .of_extract hp (fun b h m hh hm hmem => hread b h m hh hm (hidle m hmem)) hleft

theorem contains_range_first (first last : Weekday) :
    (WeekdaySet.range first last).contains first = true := by
  simp [WeekdaySet.range]

/-- Each of the passes takes away nothing but idle words where its mentions are idle. -/
theorem takesIdle_dayPasses (hword : ∀ w, IdleDayWord holidaysExcluded w → isWord w) :
    ∀ pass ∈ dayPasses, pass.TakesIdle holidaysExcluded isWord := by
  -- A mention that names a weekday is not idle.
  have hnames {m : DayMention} {d : Weekday} (hd : m.names d = true)
      (hidle : m.IsIdle holidaysExcluded) : False := by
    rw [hidle.weekdays d] at hd
    exact Bool.false_ne_true hd
  simp only [dayPasses, List.forall_mem_cons]
  refine ⟨?_, ?_, ?_, ?_, ?_, ?_, List.forall_mem_nil _⟩
  · exact takesIdle_extract (by decide) fun b h m hh hm hidle =>
      hword h.taken (.exceptHolidays hh)
  · refine takesIdle_extract (by decide) fun b h m hh hm hidle => ?_
    obtain rfl := Option.some.inj hm
    exact (hnames (d := .sun) rfl hidle).elim
  · refine takesIdle_extract (by decide) fun b h m hh hm hidle => ?_
    obtain rfl := Option.some.inj hm
    split at hidle
    · exact (hnames (d := .mon) rfl hidle).elim
    · next hworkdays =>
      split at hidle
      · exact (hnames (d := .sat) rfl hidle).elim
      · next hweekend => exact hword h.taken (.everyDay hh hworkdays hweekend)
  · refine takesIdle_extract (by decide) fun b h m hh hm hidle => ?_
    exact hword h.taken (.holiday (hidle.holidays (Option.some.inj hm).symm) hh)
  · refine takesIdle_extract (by decide) fun b h m hh hm hidle => ?_
    split at hm
    · split at hm
      · next first last _ _ =>
        obtain rfl := Option.some.inj hm
        have hfirst := contains_range_first first last
        exact (hnames (m := .weekdays (.range first last)) hfirst hidle).elim
      · exact absurd hm (by simp)
    · exact absurd hm (by simp)
  · refine takesIdle_extract (by decide) fun b h m hh hm hidle => ?_
    split at hm
    · obtain ⟨day, -, rfl⟩ := Option.map_eq_some_iff.1 hm
      exact (hnames (d := day) (by simp [DayMention.names]) hidle).elim
    · exact absurd hm (by simp)

/-- The passes one after another. -/
theorem takesIdle_readDays {passes : List DayPass}
    (hpasses : ∀ pass ∈ passes, pass.TakesIdle holidaysExcluded isWord) :
    DayPass.TakesIdle holidaysExcluded isWord (readDays passes) := by
  induction passes with
  | nil => exact fun t _ hleft => hleft
  | cons pass passes ih =>
    intro t hidle hleft
    have hlater := ih (fun q hq => hpasses q (List.mem_cons_of_mem pass hq))
    refine hpasses pass List.mem_cons_self t ?_ (hlater (pass t).2 ?_ hleft)
    · exact fun m hm => hidle m (List.mem_append_left _ hm)
    · exact fun m hm => hidle m (List.mem_append_right _ hm)

/-! ## Exclusions of holidays -/

theorem not_mem_readDays {passes : List DayPass} {m : DayMention}
    (hpasses : ∀ pass ∈ passes, ∀ t, m ∉ (pass t).1) (t : Text) : m ∉ (readDays passes t).1 := by
  induction passes generalizing t with
  | nil => exact List.not_mem_nil
  | cons pass passes ih =>
    intro hm
    rcases List.mem_append.1 hm with hm | hm
    · exact hpasses pass List.mem_cons_self t hm
    · exact ih (fun q hq => hpasses q (List.mem_cons_of_mem pass hq)) (pass t).2 hm

/-- Only the first pass reads an exclusion of holidays. -/
theorem noHolidays_not_mem_readDays (t : Text) :
    .noHolidays ∉ (readDays dayPasses.tail t).1 := by
  refine not_mem_readDays ?_ t
  simp only [dayPasses, List.tail_cons, List.forall_mem_cons]
  refine ⟨?_, ?_, ?_, ?_, ?_, List.forall_mem_nil _⟩
  all_goals
    intro u hmem
    obtain ⟨b, h, -, hread⟩ := exists_hit_of_mem_extract hmem
    revert hread
  · simp
  · split
    · simp
    · split <;> simp
  · simp
  · split
    · split <;> simp
    · simp
  · split <;> simp

/-- Where holidays are excluded, the words for that occur. -/
theorem occursIn_of_noHolidays_mem (h : .noHolidays ∈ (readDays dayPasses t).1) :
    Wording.exceptHolidays.occursIn t = true := by
  rcases List.mem_append.1 h with hfirst | hlater
  · obtain ⟨b, hit, hmem, -⟩ := exists_hit_of_mem_extract hfirst
    exact occursIn_of_hit_mem_scan (by decide) hmem
  · exact absurd hlater (noHolidays_not_mem_readDays _)

/-- **Without a weekly rule, the passes for days take away idle words only.** -/
theorem ConsistsOf.of_extractDays {shifts exceptHolidays : Bool}
    (hrule : (extractDays t).1.bind (fun s => weeklyRule? s shifts exceptHolidays) = none)
    (hword : ∀ w, IdleDayWord (Wording.exceptHolidays.occursIn t = true) w → isWord w)
    (hleft : ConsistsOf isWord (extractDays t).2) : ConsistsOf isWord t := by
  have hidle := isIdle_of_weeklyRule? hrule
  have hpasses := takesIdle_readDays (takesIdle_dayPasses hword)
  refine hpasses t ?_ hleft
  intro m hm
  exact ⟨(hidle m hm).weekdays, fun h => occursIn_of_noHolidays_mem ((hidle m hm).holidays h)⟩

end OpeningHours
