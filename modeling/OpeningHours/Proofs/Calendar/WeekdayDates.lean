import OpeningHours.Calendar.Date

/-!
# Dates with a given weekday

Seven consecutive days of a month have each weekday once, so wherever a month has seven days in a
row, one of them has the weekday that is asked for.

* `weekday_eq_iff`: the weekday of a date is the remainder of its day number;
* **`exists_date_in_week`**: seven days of a month have a date with the weekday.
-/

namespace OpeningHours

theorem Weekday.index_ofIndex (n : Nat) : (ofIndex n).index = n % 7 := by
  have hsmall : ∀ k : Fin 7, (ofIndex k).index = k := by decide
  have hmod : ofIndex n = ofIndex (n % 7) := by
    rw [ofIndex, ofIndex, Nat.mod_mod]
  rw [hmod]
  exact hsmall ⟨n % 7, Nat.mod_lt n (by omega)⟩

namespace Date

variable {y : Int} {m s : Nat}

/-- The weekday is the remainder of the day number, counted from Monday. -/
theorem weekday_eq_iff (date : Date) (d : Weekday) :
    date.weekday = d ↔ date.dayNumber % 7 = d.index := by
  have hmod : 0 ≤ date.dayNumber % 7 ∧ date.dayNumber % 7 < 7 := by omega
  have hindex : date.weekday.index = (date.dayNumber % 7).toNat := by
    rw [weekday, Weekday.index_ofIndex]
    omega
  constructor
  · intro h
    rw [← h, hindex]
    omega
  · intro h
    have heq : date.weekday.index = d.index := by
      rw [hindex]
      omega
    rw [← Weekday.ofIndex_index date.weekday, heq, Weekday.ofIndex_index]

/-- **Seven days of a month have each weekday.** -/
theorem exists_date_in_week (hy : firstYear ≤ y ∧ y ≤ lastYear) (hm : 1 ≤ m ∧ m ≤ 12)
    (hs : 1 ≤ s ∧ s + 6 ≤ monthLength y m) (d : Weekday) :
    ∃ date : Date, date.year = y ∧ date.month = m ∧ (s ≤ date.day ∧ date.day ≤ s + 6) ∧
      date.weekday = d := by
  -- The first of the seven days has the number `n`; the weekday comes up `i` days later.
  obtain ⟨n, hn⟩ : ∃ n : Int,
      n = daysBeforeYear y + daysThroughMonth y (m - 1) + s - 1 := ⟨_, rfl⟩
  obtain ⟨i, hi⟩ : ∃ i : Nat, i = ((d.index - n) % 7).toNat := ⟨_, rfl⟩
  have hd := d.index_lt
  have hle : i ≤ 6 := by omega
  have hdate : IsDate y m (s + i) := ⟨hy, hm, by omega, by omega⟩
  refine ⟨⟨y, m, s + i, hdate⟩, rfl, rfl, ⟨Nat.le_add_right s i, Nat.add_le_add_left hle s⟩, ?_⟩
  have hnumber : dayNumber ⟨y, m, s + i, hdate⟩ = n + i := by
    show daysBeforeYear y + daysThroughMonth y (m - 1) + ((s + i : Nat) : Int) - 1 = n + i
    omega
  rw [weekday_eq_iff, hnumber]
  omega

/-- Every weekday has a date. -/
theorem exists_weekday_eq (d : Weekday) : ∃ date : Date, date.weekday = d := by
  obtain ⟨date, -, -, -, hweekday⟩ :=
    exists_date_in_week (y := 2026) (by decide) (m := 1) (by decide) (s := 1) (by decide) d
  exact ⟨date, hweekday⟩

end Date

end OpeningHours
