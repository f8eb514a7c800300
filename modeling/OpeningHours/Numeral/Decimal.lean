import OpeningHours.Text.Basic

/-!
# Decimal numerals

Reading and writing numbers with ASCII digits. A numeral is read from the left, each digit adding a
place; writing pads with zeros on the left where a width is asked for. The main statement is that
the written form of a number has that number as its value (`value_write`).
-/

namespace OpeningHours.Decimal

/-- The value of an ASCII digit. -/
def digitValue (c : Char) : Nat :=
  c.toNat - '0'.toNat

/-- The value of a run of digits after digits of value `acc`. -/
def valueFrom (acc : Nat) (digits : Text) : Nat :=
  digits.foldl (fun n c => 10 * n + digitValue c) acc

/-- The value of a run of digits; zero for the empty run. -/
def value (digits : Text) : Nat :=
  valueFrom 0 digits

/-- The digits of a number, without leading zeros. -/
def write (n : Nat) : Text :=
  Nat.toDigits 10 n

/-- The digits of a number with zeros in front up to `width` places. -/
def writePadded (width n : Nat) : Text :=
  List.replicate (width - (write n).length) '0' ++ write n

/-- The digits of an integer with a minus sign in front of a negative one. -/
def writeInt (n : Int) : Text :=
  if n < 0 then '-' :: write n.natAbs else write n.natAbs

/-- The digits at the start of the text, at most `most` of them, and the text after them. -/
def takeDigits (most : Nat) (t : Text) : Text × Text :=
  let digits := (t.takeWhile Char.isDigit).take most
  (digits, t.drop digits.length)

/-! ## Value and written form -/

theorem valueFrom_append (acc : Nat) (s t : Text) :
    valueFrom acc (s ++ t) = valueFrom (valueFrom acc s) t := by
  simp [valueFrom]

theorem digitValue_digitChar {d : Nat} (h : d < 10) : digitValue d.digitChar = d := by
  have : ∀ d : Fin 10, digitValue (d : Nat).digitChar = d := by decide
  exact this ⟨d, h⟩

/-- The written form of a number has that number as its value. -/
theorem value_write (n : Nat) : value (write n) = n := by
  induction n using Nat.strongRecOn with
  | ind n ih =>
    by_cases h : n < 10
    · rw [write, Nat.toDigits_of_lt_base h]
      simp [value, valueFrom, digitValue_digitChar h]
    · have hn : 10 ≤ n := by omega
      rw [write, Nat.toDigits_of_base_le (by omega) hn, value, valueFrom_append]
      have hq := ih (n / 10) (by omega)
      rw [write, value] at hq
      rw [hq]
      simp [valueFrom, digitValue_digitChar (Nat.mod_lt n (by omega : 0 < 10))]
      omega

end OpeningHours.Decimal
