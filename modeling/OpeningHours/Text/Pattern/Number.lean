import OpeningHours.Numeral.Decimal
import OpeningHours.Text.Pattern.Basic

/-!
# Numbers in hits

The parts of a hit that are runs of digits, read as numbers.
-/

namespace OpeningHours.Hit

/-- The number written in the part named `slot`; zero if the hit lacks it. -/
def number (h : Hit) (slot : Slot) : Nat :=
  Decimal.value (h.part slot)

/-- The number written in the part named `slot`, if the hit has it. -/
def number? (h : Hit) (slot : Slot) : Option Nat :=
  (h.part? slot).map Decimal.value

end OpeningHours.Hit
