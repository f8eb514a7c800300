import Mathlib.Order.Defs.LinearOrder
import Mathlib.Algebra.Order.Ring.Int
import OpeningHours.Calendar.Date

/-!
# Counting the days of the calendar

`Date.dayNumber` puts the dates on a line of days. The statements here make the line usable: it
orders the dates as year, month and day do, no two dates share a number, and the neighbours of a
date are the dates one day earlier and one day later.

* `dayNumber_lt_of_year_lt`, `dayNumber_lt_of_month_lt`: the order by year, then by month;
* **`dayNumber_injective`**: a date is known by its number;
* **`prev?_eq_some_iff`**: the date before is the one whose number is one less. It is missing only
  where no date has that number, which is the first date of the calendar;
* **`next?_eq_some_iff`**: the date after is the one whose number is one more, likewise.
-/

namespace OpeningHours.Date

/-! ## Months and years -/

theorem twentyEight_le_monthLength (y : Int) (m : Nat) : 28 ≤ monthLength y m := by
  unfold monthLength
  split
  · split <;> omega
  · omega
  · omega
  · omega
  · omega
  · omega

theorem monthLength_le (y : Int) (m : Nat) : monthLength y m ≤ 31 := by
  unfold monthLength
  split
  · split <;> decide
  · decide
  · decide
  · decide
  · decide
  · decide

/-- A month ends where the next one starts. -/
theorem daysThroughMonth_pred {y : Int} {m : Nat} (hm : 1 ≤ m) :
    daysThroughMonth y m = daysThroughMonth y (m - 1) + monthLength y m := by
  obtain ⟨k, rfl⟩ : ∃ k, m = k + 1 := ⟨m - 1, by omega⟩
  rfl

theorem daysThroughMonth_mono (y : Int) {m n : Nat} (h : m ≤ n) :
    daysThroughMonth y m ≤ daysThroughMonth y n := by
  induction n with
  | zero =>
    obtain rfl : m = 0 := by omega
    exact Nat.le_refl _
  | succ n ih =>
    rcases Nat.lt_or_ge n m with hlt | hge
    · obtain rfl : m = n + 1 := by omega
      exact Nat.le_refl _
    · exact Nat.le_trans (ih hge) (Nat.le_add_right _ _)

theorem daysBeforeYear_mono {y z : Int} (h : y ≤ z) : daysBeforeYear y ≤ daysBeforeYear z := by
  simp only [daysBeforeYear]
  omega

/-! ## The place of a date in its year -/

/-- The day of the year, counted from 1. -/
def dayOfYear (d : Date) : Nat :=
  daysThroughMonth d.year (d.month - 1) + d.day

theorem dayNumber_eq (d : Date) : d.dayNumber = daysBeforeYear d.year + d.dayOfYear - 1 := by
  simp only [dayNumber, dayOfYear]
  omega

theorem one_le_dayOfYear (d : Date) : 1 ≤ d.dayOfYear := by
  have hd := d.isDate.2.2.1
  simp only [dayOfYear]
  omega

/-- A date lies no later than the last day of its month. -/
theorem dayOfYear_le (d : Date) : d.dayOfYear ≤ daysThroughMonth d.year d.month := by
  have hd := d.isDate.2.2.2
  rw [daysThroughMonth_pred d.isDate.2.1.1]
  simp only [dayOfYear]
  omega

/-- A date lies before the start of the next year. -/
theorem dayNumber_lt_daysBeforeYear_succ (d : Date) :
    d.dayNumber < daysBeforeYear (d.year + 1) := by
  have hle := d.dayOfYear_le
  have hmono := daysThroughMonth_mono d.year d.isDate.2.1.2
  have hyear : daysBeforeYear (d.year + 1) =
      daysBeforeYear d.year + daysThroughMonth d.year 12 := by
    rw [daysBeforeYear_succ, daysThroughMonth_twelve]
    split <;> rfl
  rw [dayNumber_eq, hyear]
  omega

/-! ## The order of the dates -/

theorem dayNumber_lt_of_year_lt {a b : Date} (h : a.year < b.year) :
    a.dayNumber < b.dayNumber := by
  have ha := a.dayNumber_lt_daysBeforeYear_succ
  have hab : daysBeforeYear (a.year + 1) ≤ daysBeforeYear b.year := daysBeforeYear_mono (by omega)
  have hb := b.one_le_dayOfYear
  have := b.dayNumber_eq
  omega

theorem dayNumber_lt_of_month_lt {a b : Date} (hy : a.year = b.year) (h : a.month < b.month) :
    a.dayNumber < b.dayNumber := by
  have ha := a.dayOfYear_le
  have hmono : daysThroughMonth a.year a.month ≤ daysThroughMonth a.year (b.month - 1) :=
    daysThroughMonth_mono a.year (by omega)
  have hb := b.isDate.2.2.1
  rw [dayNumber_eq, dayNumber_eq, ← hy]
  rw [show b.dayOfYear = daysThroughMonth a.year (b.month - 1) + b.day by rw [hy]; rfl]
  omega

theorem dayNumber_sub_of_month_eq {a b : Date} (hy : a.year = b.year) (hm : a.month = b.month) :
    b.dayNumber - a.dayNumber = b.day - a.day := by
  simp only [dayNumber, hy, hm]
  omega

/-- **A date is known by its number.** -/
theorem dayNumber_injective {a b : Date} (h : a.dayNumber = b.dayNumber) : a = b := by
  have hy : a.year = b.year := by
    rcases lt_trichotomy a.year b.year with hlt | heq | hgt
    · have := dayNumber_lt_of_year_lt hlt
      omega
    · exact heq
    · have := dayNumber_lt_of_year_lt hgt
      omega
  have hm : a.month = b.month := by
    rcases lt_trichotomy a.month b.month with hlt | heq | hgt
    · have := dayNumber_lt_of_month_lt hy hlt
      omega
    · exact heq
    · have := dayNumber_lt_of_month_lt hy.symm hgt
      omega
  have hd : a.day = b.day := by
    have := dayNumber_sub_of_month_eq hy hm
    omega
  obtain ⟨y, m, d, hdate⟩ := a
  obtain ⟨y', m', d', hdate'⟩ := b
  simp only at hy hm hd
  subst hy hm hd
  rfl

instance : Std.Irrefl (α := Date) (· < ·) := ⟨fun d => Int.lt_irrefl d.dayNumber⟩

instance : Trans (α := Date) (· < ·) (· < ·) (· < ·) := ⟨fun hab hbc => Int.lt_trans hab hbc⟩

instance : Std.Trichotomous (α := Date) (· < ·) :=
  ⟨fun _ _ hab hba => dayNumber_injective (Int.le_antisymm (Int.not_lt.1 hba) (Int.not_lt.1 hab))⟩

/-! ## The date before -/

theorem ofYmd?_eq_none {y : Int} {m d : Nat} : ofYmd? y m d = none ↔ ¬ IsDate y m d := by
  simp [ofYmd?]

/-- The three places where the date before a date may be. -/
theorem prev?_cases {d e : Date} (h : d.prev? = some e) :
    (e.year = d.year ∧ e.month = d.month ∧ e.day + 1 = d.day) ∨
      (d.day = 1 ∧ e.year = d.year ∧ e.month + 1 = d.month ∧
        e.day = monthLength d.year (d.month - 1)) ∨
      (d.day = 1 ∧ d.month = 1 ∧ e.year + 1 = d.year ∧ e.month = 12 ∧ e.day = 31) := by
  have hdate := d.isDate
  have hday : ofYmd? d.year d.month (d.day - 1) = none → d.day = 1 := by
    intro hnone
    by_contra hne
    refine ofYmd?_eq_none.1 hnone ⟨hdate.1, hdate.2.1, ?_, ?_⟩
    · have := hdate.2.2.1
      omega
    · have := hdate.2.2.2
      omega
  have hmonth : ofYmd? d.year (d.month - 1) (monthLength d.year (d.month - 1)) = none →
      d.month = 1 := by
    intro hnone
    by_contra hne
    have hlen := twentyEight_le_monthLength d.year (d.month - 1)
    have := hdate.2.1
    refine ofYmd?_eq_none.1 hnone ⟨hdate.1, ?_, ?_, Nat.le_refl _⟩
    · omega
    · omega
  rw [prev?, Option.or_eq_some_iff, Option.or_eq_some_iff] at h
  rcases h with h | ⟨hn, h | ⟨hn', h⟩⟩
  · obtain ⟨hy, hm, hd⟩ := ofYmd?_eq_some.1 h
    have := e.isDate.2.2.1
    exact .inl ⟨hy, hm, by omega⟩
  · obtain ⟨hy, hm, hd⟩ := ofYmd?_eq_some.1 h
    have := e.isDate.2.1.1
    exact .inr (.inl ⟨hday hn, hy, by omega, hd⟩)
  · obtain ⟨hy, hm, hd⟩ := ofYmd?_eq_some.1 h
    exact .inr (.inr ⟨hday hn, hmonth hn', by omega, hm, hd⟩)

/-- The date before lies one day earlier on the line of days. -/
theorem dayNumber_of_prev? {d e : Date} (h : d.prev? = some e) :
    e.dayNumber + 1 = d.dayNumber := by
  rcases prev?_cases h with ⟨hy, hm, hd⟩ | ⟨hd1, hy, hm, hd⟩ | ⟨hd1, hm1, hy, hm, hd⟩
  · have := dayNumber_sub_of_month_eq hy hm
    omega
  · have hpred := daysThroughMonth_pred (y := d.year) (m := e.month) e.isDate.2.1.1
    have hlast : e.month = d.month - 1 := by omega
    simp only [dayNumber, hy, hd, hd1, ← hlast]
    omega
  · have hpred := daysThroughMonth_pred (y := e.year) (m := 12) (by omega)
    have hdec : monthLength e.year 12 = 31 := rfl
    have hyear : daysBeforeYear d.year = daysBeforeYear e.year + daysThroughMonth e.year 12 := by
      rw [← hy, daysBeforeYear_succ, daysThroughMonth_twelve]
      split <;> rfl
    have hnew : daysThroughMonth d.year (1 - 1) = 0 := rfl
    simp only [dayNumber, hyear, hm, hd, hd1, hm1, hnew]
    omega

/-- Only the first date of the calendar has no date before it. -/
theorem dayNumber_le_of_prev?_eq_none {d : Date} (h : d.prev? = none) (e : Date) :
    d.dayNumber ≤ e.dayNumber := by
  rw [prev?, Option.or_eq_none_iff, Option.or_eq_none_iff] at h
  obtain ⟨hday, hmonth, hyear⟩ := h
  have hdate := d.isDate
  have hlen := twentyEight_le_monthLength d.year (d.month - 1)
  rw [ofYmd?_eq_none, IsDate] at hday hmonth hyear
  rw [IsDate] at hdate
  have hd : d.day = 1 := by omega
  have hm : d.month = 1 := by omega
  have hy : d.year = firstYear := by
    have : monthLength (d.year - 1) 12 = 31 := rfl
    omega
  rcases lt_or_eq_of_le (show d.year ≤ e.year by rw [hy]; exact e.isDate.1.1) with hlt | heq
  · exact (dayNumber_lt_of_year_lt hlt).le
  · have := e.one_le_dayOfYear
    have hfirst : d.dayOfYear = 1 := by simp [dayOfYear, hm, hd, daysThroughMonth]
    rw [dayNumber_eq, dayNumber_eq, ← heq, hfirst]
    omega

/-- **The date before is the date whose number is one less.** -/
theorem prev?_eq_some_iff {d e : Date} : d.prev? = some e ↔ e.dayNumber + 1 = d.dayNumber := by
  constructor
  · exact dayNumber_of_prev?
  · intro h
    cases hp : d.prev? with
    | none =>
      have := dayNumber_le_of_prev?_eq_none hp e
      omega
    | some p =>
      have hn := dayNumber_of_prev? hp
      rw [dayNumber_injective (a := p) (b := e) (by omega)]

/-! ## The date after -/

/-- The three places where the date after a date may be. -/
theorem next?_cases {d e : Date} (h : d.next? = some e) :
    (e.year = d.year ∧ e.month = d.month ∧ e.day = d.day + 1) ∨
      (d.day = monthLength d.year d.month ∧ e.year = d.year ∧ e.month = d.month + 1 ∧ e.day = 1) ∨
      (d.day = monthLength d.year d.month ∧ d.month = 12 ∧ e.year = d.year + 1 ∧ e.month = 1 ∧
        e.day = 1) := by
  have hdate := d.isDate
  have hday : ofYmd? d.year d.month (d.day + 1) = none → d.day = monthLength d.year d.month := by
    intro hnone
    by_contra hne
    refine ofYmd?_eq_none.1 hnone ⟨hdate.1, hdate.2.1, ?_, ?_⟩
    · omega
    · have := hdate.2.2.2
      omega
  have hmonth : ofYmd? d.year (d.month + 1) 1 = none → d.month = 12 := by
    intro hnone
    by_contra hne
    have hlen := twentyEight_le_monthLength d.year (d.month + 1)
    have := hdate.2.1
    refine ofYmd?_eq_none.1 hnone ⟨hdate.1, ?_, Nat.le_refl 1, ?_⟩
    · omega
    · omega
  rw [next?, Option.or_eq_some_iff, Option.or_eq_some_iff] at h
  rcases h with h | ⟨hn, h | ⟨hn', h⟩⟩
  · obtain ⟨hy, hm, hd⟩ := ofYmd?_eq_some.1 h
    exact .inl ⟨hy, hm, hd⟩
  · obtain ⟨hy, hm, hd⟩ := ofYmd?_eq_some.1 h
    exact .inr (.inl ⟨hday hn, hy, hm, hd⟩)
  · obtain ⟨hy, hm, hd⟩ := ofYmd?_eq_some.1 h
    exact .inr (.inr ⟨hday hn, hmonth hn', hy, hm, hd⟩)

/-- The date after lies one day later on the line of days. -/
theorem dayNumber_of_next? {d e : Date} (h : d.next? = some e) :
    e.dayNumber = d.dayNumber + 1 := by
  have hlength := daysThroughMonth_pred (y := d.year) (m := d.month) d.isDate.2.1.1
  rcases next?_cases h with ⟨hy, hm, hd⟩ | ⟨hlast, hy, hm, hd⟩ | ⟨hlast, hm12, hy, hm, hd⟩
  · have := dayNumber_sub_of_month_eq hy hm
    omega
  · simp only [dayNumber, hy, hm, hd, Nat.add_sub_cancel]
    omega
  · have hyear : daysBeforeYear e.year = daysBeforeYear d.year + daysThroughMonth d.year 12 := by
      rw [hy, daysBeforeYear_succ, daysThroughMonth_twelve]
      split <;> rfl
    have hnew : daysThroughMonth e.year (1 - 1) = 0 := rfl
    rw [hm12] at hlast hlength
    simp only [dayNumber, hyear, hm, hd, hm12, hnew]
    omega

/-- Only the last date of the calendar has no date after it. -/
theorem dayNumber_le_of_next?_eq_none {d : Date} (h : d.next? = none) (e : Date) :
    e.dayNumber ≤ d.dayNumber := by
  rw [next?, Option.or_eq_none_iff, Option.or_eq_none_iff] at h
  obtain ⟨hday, hmonth, hyear⟩ := h
  have hdate := d.isDate
  have hlen := twentyEight_le_monthLength d.year (d.month + 1)
  rw [ofYmd?_eq_none, IsDate] at hday hmonth hyear
  rw [IsDate] at hdate
  have hm : d.month = 12 := by omega
  have hd : d.day = monthLength d.year d.month := by omega
  have hy : d.year = lastYear := by
    have : monthLength (d.year + 1) 1 = 31 := rfl
    omega
  rcases lt_or_eq_of_le (show e.year ≤ d.year by rw [hy]; exact e.isDate.1.2) with hlt | heq
  · exact (dayNumber_lt_of_year_lt hlt).le
  · have hle := e.dayOfYear_le
    have hmono : daysThroughMonth e.year e.month ≤ daysThroughMonth e.year 12 :=
      daysThroughMonth_mono e.year e.isDate.2.1.2
    have hlast : d.dayOfYear = daysThroughMonth e.year 12 := by
      rw [dayOfYear, hd, ← daysThroughMonth_pred d.isDate.2.1.1, hm, heq]
    rw [dayNumber_eq, dayNumber_eq, heq, hlast]
    omega

/-- **The date after is the date whose number is one more.** -/
theorem next?_eq_some_iff {d e : Date} : d.next? = some e ↔ e.dayNumber = d.dayNumber + 1 := by
  constructor
  · exact dayNumber_of_next?
  · intro h
    cases hn : d.next? with
    | none =>
      have := dayNumber_le_of_next?_eq_none hn e
      omega
    | some f =>
      have hf := dayNumber_of_next? hn
      rw [dayNumber_injective (a := f) (b := e) (by omega)]

/-- No two dates have one date after them, and one date alone has none. -/
theorem next?_injective {d e : Date} (h : d.next? = e.next?) : d = e := by
  cases hd : d.next? with
  | none =>
    have hde := dayNumber_le_of_next?_eq_none hd e
    have hed := dayNumber_le_of_next?_eq_none (h ▸ hd) d
    exact dayNumber_injective (by omega)
  | some f =>
    have hdf := dayNumber_of_next? hd
    have hef := dayNumber_of_next? (h ▸ hd)
    exact dayNumber_injective (by omega)

/-- One date comes after another exactly if the other comes before it. -/
theorem next?_eq_some_iff_prev? {d e : Date} : d.next? = some e ↔ e.prev? = some d := by
  rw [next?_eq_some_iff, prev?_eq_some_iff, eq_comm]

end OpeningHours.Date
