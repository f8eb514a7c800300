import OpeningHours.Calendar.DateText
import OpeningHours.Proofs.Calendar.DayCount
import OpeningHours.Proofs.Numeral.Decimal

/-!
# Written dates are read back

A written date is read as the date that was written, whatever its year (**`ofText?_toText`**): the
four digits of a year from 0 to 9999, and all digits of a signed one. Nothing is trimmed off it
(`trim_toText`), and no two dates are written alike (`toText_injective`).
-/

namespace OpeningHours

open Text Decimal

variable {rest : Text}

/-- Nothing is trimmed off in front of a digit. -/
theorem trimStart_of_digits {s : Text} (hs : ∀ c ∈ s, c.isDigit = true) (hne : s ≠ [])
    (rest : Text) : trimStart (s ++ rest) = s ++ rest := by
  obtain ⟨c, s, rfl⟩ := List.exists_cons_of_ne_nil hne
  have hc := not_isBlank_of_isDigit (hs c List.mem_cons_self)
  exact List.dropWhile_cons_of_neg (by simp [hc])

/-! ## Numbers -/

/-- A padded number is read as it is, if its digits are not too many. -/
theorem readNumber?_writePadded {most width n : Nat}
    (hlength : (writePadded width n).length ≤ most)
    (hrest : rest.head?.any Char.isDigit = false) :
    readNumber? most (writePadded width n ++ rest) = some (n, rest) := by
  rw [readNumber?, takeDigits_append (fun _ => isDigit_of_mem_writePadded) hlength hrest]
  split
  · next h => exact absurd (congrArg Prod.fst h) (writePadded_ne_nil width n)
  · next digits _ _ h =>
    obtain ⟨rfl, rfl⟩ := Prod.mk.inj h
    rw [value_writePadded]

theorem readAfterHyphen?_writePadded {n : Nat} (hn : n < 100) (rest : Text)
    (hrest : rest.head?.any Char.isDigit = false) :
    readAfterHyphen? ('-' :: (writePadded 2 n ++ rest)) = some (n, rest) := by
  have hlength : (writePadded 2 n).length ≤ 2 := Nat.le_of_eq (length_writePadded (by omega) hn)
  rw [readAfterHyphen?, trimStart_of_digits (fun _ => isDigit_of_mem_writePadded)
    (writePadded_ne_nil 2 n)]
  exact readNumber?_writePadded hlength hrest

/-! ## Years -/

/-- A year without a sign has at most four digits. -/
theorem readYear?_of_digits {s : Text} (hs : ∀ c ∈ s, c.isDigit = true) (hne : s ≠ [])
    (rest : Text) : readYear? (s ++ rest) =
      (readNumber? 4 (s ++ rest)).map fun (n, rest) => ((n : Int), rest) := by
  rw [readYear?, trimStart_of_digits hs hne]
  obtain ⟨c, s, rfl⟩ := List.exists_cons_of_ne_nil hne
  have hc := hs c List.mem_cons_self
  split
  · next h =>
    rw [(List.cons.inj h).1] at hc
    exact absurd hc (by decide)
  · next h =>
    rw [(List.cons.inj h).1] at hc
    exact absurd hc (by decide)
  · rfl

theorem readYear?_writeYear (y : Int) (rest : Text) :
    readYear? (writeYear y ++ '-' :: rest) = some (y, '-' :: rest) := by
  have hstop : (List.head? ('-' :: rest)).any Char.isDigit = false := rfl
  have hall (k : Nat) : (writePadded 4 k).length ≤ (writePadded 4 k ++ '-' :: rest).length := by
    rw [List.length_append]
    omega
  have hsign {c : Char} (hc : isBlank c = false) (t : Text) : trimStart (c :: t) = c :: t :=
    List.dropWhile_cons_of_neg (by simp [hc])
  rw [writeYear]
  split
  · next hneg =>
    have hy : -(y.natAbs : Int) = y := by omega
    rw [List.cons_append, readYear?, hsign (by decide)]
    simp only [readNumber?_writePadded (hall y.natAbs) hstop, Option.map_some, hy]
  · next hpos =>
    have hy : (y.natAbs : Int) = y := by omega
    split
    · next hle =>
      have hlength : (writePadded 4 y.natAbs).length ≤ 4 :=
        Nat.le_of_eq (length_writePadded (by omega) (by omega))
      rw [readYear?_of_digits (fun _ => isDigit_of_mem_writePadded) (writePadded_ne_nil _ _),
        readNumber?_writePadded hlength hstop]
      simp only [Option.map_some, hy]
    · rw [List.cons_append, readYear?, hsign (by decide)]
      simp only [readNumber?_writePadded (hall y.natAbs) hstop, Option.map_some, hy]

/-! ## Dates -/

namespace Date

/-- **A written date is read as the date that was written.** -/
theorem ofText?_toText (d : Date) : ofText? d.toText = some d := by
  obtain ⟨-, ⟨-, hmonth⟩, -, hday⟩ := d.isDate
  have hday := Nat.le_trans hday (monthLength_le d.year d.month)
  have hmonthText := readAfterHyphen?_writePadded (n := d.month) (by omega)
    ('-' :: writePadded 2 d.day) rfl
  have hdayText := readAfterHyphen?_writePadded (n := d.day) (by omega) [] rfl
  rw [List.append_nil] at hdayText
  have hdate : ofYmd? d.year d.month d.day = some d := ofYmd?_eq_some.2 ⟨rfl, rfl, rfl⟩
  have htext : d.toText = writeYear d.year ++ '-' :: (writePadded 2 d.month ++
      '-' :: writePadded 2 d.day) := by
    simp [toText]
  simp only [ofText?, htext, readYear?_writeYear, hmonthText, hdayText, Option.bind_eq_bind,
    Option.bind_some, List.isEmpty_nil, if_true, hdate]

theorem toText_injective {d e : Date} (h : d.toText = e.toText) : d = e := by
  have hd := ofText?_toText d
  rw [h, ofText?_toText] at hd
  exact (Option.some.inj hd).symm

theorem not_isBlank_of_mem_toText {d : Date} {c : Char} (hc : c ∈ d.toText) :
    isBlank c = false := by
  have hdigits {width n : Nat} (hc : c ∈ writePadded width n) : isBlank c = false :=
    not_isBlank_of_isDigit (isDigit_of_mem_writePadded hc)
  have hyear (hc : c ∈ writeYear d.year) : isBlank c = false := by
    rw [writeYear] at hc
    split at hc
    · rcases List.mem_cons.1 hc with rfl | hc
      · decide
      · exact hdigits hc
    · split at hc
      · exact hdigits hc
      · rcases List.mem_cons.1 hc with rfl | hc
        · decide
        · exact hdigits hc
  simp only [toText, List.mem_append, List.mem_cons] at hc
  rcases hc with (hc | rfl | hc) | rfl | hc
  · exact hyear hc
  · decide
  · exact hdigits hc
  · decide
  · exact hdigits hc

/-- Nothing is trimmed off a written date. -/
theorem trim_toText (d : Date) : trim d.toText = d.toText :=
  trim_of_not_isBlank fun _ => not_isBlank_of_mem_toText

end Date

end OpeningHours
