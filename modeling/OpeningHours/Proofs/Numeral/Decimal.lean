import Mathlib.Algebra.Group.Nat.Defs
import Mathlib.Data.List.Basic
import OpeningHours.Numeral.Decimal

/-!
# Written numbers are read back

The written form of a number is made of digits and has the number as its value, with and without
zeros in front (`value_writePadded`). A run of digits in front of anything else is taken as a whole
(`takeDigits_append`). No two integers are written alike (**`writeInt_injective`**).
-/

namespace OpeningHours.Decimal

variable {n : Nat} {c : Char} {s t : Text}

/-- The text is a decimal numeral: digits and nothing else. -/
structure IsNumeral (t : Text) : Prop where
  ne_nil : t ≠ []
  made : ∀ c ∈ t, c.isDigit = true

instance (t : Text) : Decidable (IsNumeral t) :=
  decidable_of_iff (t ≠ [] ∧ t.all Char.isDigit = true)
    ⟨fun h => ⟨h.1, List.all_eq_true.1 h.2⟩, fun h => ⟨h.ne_nil, List.all_eq_true.2 h.made⟩⟩

theorem isDigit_of_mem_write (hc : c ∈ write n) : c.isDigit = true :=
  Nat.isDigit_of_mem_toDigits (by omega) (by omega) hc

theorem write_ne_nil (n : Nat) : write n ≠ [] := Nat.toDigits_ne_nil

/-- No number is written with a minus sign. -/
theorem write_ne_minus (n : Nat) (t : Text) : write n ≠ '-' :: t := by
  intro h
  have hminus : '-' ∈ write n := by
    rw [h]
    exact List.mem_cons_self
  exact absurd (isDigit_of_mem_write hminus) (by decide)

theorem writeInt_injective {m n : Int} (h : writeInt m = writeInt n) : m = n := by
  have hvalue {a b : Nat} (hab : write a = write b) : a = b := by
    rw [← value_write a, hab, value_write]
  rw [writeInt, writeInt] at h
  split at h
  · split at h
    · have := hvalue (List.cons.inj h).2
      omega
    · exact absurd h.symm (write_ne_minus _ _)
  · split at h
    · exact absurd h (write_ne_minus _ _)
    · have := hvalue h
      omega

/-! ## Zeros in front -/

theorem isDigit_of_mem_writePadded {width : Nat} (hc : c ∈ writePadded width n) :
    c.isDigit = true := by
  rcases List.mem_append.1 hc with hc | hc
  · rw [(List.mem_replicate.1 hc).2]
    rfl
  · exact isDigit_of_mem_write hc

theorem writePadded_ne_nil (width n : Nat) : writePadded width n ≠ [] :=
  List.append_ne_nil_of_right_ne_nil _ (write_ne_nil n)

theorem valueFrom_replicate_zero (k : Nat) : valueFrom 0 (List.replicate k '0') = 0 := by
  induction k with
  | zero => rfl
  | succ k ih => exact ih

theorem value_writePadded (width n : Nat) : value (writePadded width n) = n := by
  rw [writePadded, value, valueFrom_append, valueFrom_replicate_zero]
  exact value_write n

theorem length_writePadded {width : Nat} (hwidth : 0 < width) (hn : n < 10 ^ width) :
    (writePadded width n).length = width := by
  have hle : (write n).length ≤ width := (Nat.length_toDigits_le_iff (by omega) hwidth).2 hn
  rw [writePadded, List.length_append, List.length_replicate]
  omega

/-! ## Taking digits -/

/-- Digits in front of anything else are taken together, if they are not too many. -/
theorem takeDigits_append {most : Nat} (hs : ∀ c ∈ s, c.isDigit = true) (hlength : s.length ≤ most)
    (ht : t.head?.any Char.isDigit = false) : takeDigits most (s ++ t) = (s, t) := by
  have hstop : t.takeWhile Char.isDigit = [] := by
    cases t with
    | nil => rfl
    | cons c t => exact List.takeWhile_cons_of_neg (by simpa using ht)
  have hdigits : ((s ++ t).takeWhile Char.isDigit).take most = s := by
    rw [List.takeWhile_append_of_pos hs, hstop, List.append_nil, List.take_of_length_le hlength]
  rw [takeDigits, hdigits, List.drop_left]

end OpeningHours.Decimal
