import Mathlib.Logic.Function.Basic
import OpeningHours.Holiday.Service
import OpeningHours.Proofs.Numeral.Decimal
import OpeningHours.Proofs.Text.Replacement

/-!
# An address for each year

If two years shared an address, the holidays of one would be kept as those of the other. Settings
that pass the check rule this out, and they are the only ones that do
(**`validate_iff_address_injective`**): the written year is put in wherever the placeholder stands,
so it can be read off the address, whatever digits and signs stand around it. No bound on the years
is needed for that (`address_injective`).
-/

namespace OpeningHours.HolidayService

variable {s : HolidayService} {year year' : Int}

theorem placeholder_ne_nil : placeholder ≠ [] := by decide

/-- The endpoint has a place for the year exactly if the placeholder is a stretch of it. -/
theorem hasPlaceholder_iff : s.hasPlaceholder = true ↔ placeholder <:+: s.endpoint := by
  rw [hasPlaceholder, decide_eq_true_iff, Text.one_lt_length_splitOn_iff placeholder_ne_nil]

theorem validate_eq_ok_iff :
    s.validate = .ok () ↔ placeholder <:+: s.endpoint ∧ 0 < s.timeoutSeconds := by
  rw [← hasPlaceholder_iff, validate]
  cases s.hasPlaceholder with
  | false => simp
  | true =>
    by_cases htimeout : s.timeoutSeconds = 0
    · simp [htimeout]
    · simp [htimeout, Nat.pos_of_ne_zero htimeout]

/-- The year of an address can be read off it. -/
theorem address_injective (hplace : placeholder <:+: s.endpoint)
    (h : s.address year = s.address year') : year = year' :=
  Decimal.writeInt_injective (Text.replace_injective placeholder_ne_nil hplace h)

/-- Without a place for the year all years have one address. -/
theorem address_eq_endpoint (hplace : ¬ placeholder <:+: s.endpoint) (year : Int) :
    s.address year = s.endpoint :=
  Text.replace_of_not_occurs placeholder_ne_nil hplace _

/-- **The settings are valid exactly if every year has an address of its own**, where the time limit
is positive; and that is so exactly if the placeholder stands somewhere in the endpoint. -/
theorem validate_iff_address_injective (htimeout : 0 < s.timeoutSeconds) :
    (s.validate = .ok () ↔ Function.Injective fun year : Int32 => s.address year.toInt) ∧
      (placeholder <:+: s.endpoint ↔
        Function.Injective fun year : Int32 => s.address year.toInt) := by
  have hplace : placeholder <:+: s.endpoint ↔
      Function.Injective fun year : Int32 => s.address year.toInt := by
    constructor
    · intro hinfix year year' hsame
      exact Int32.toInt_inj.1 (address_injective hinfix hsame)
    · intro hinjective
      by_contra hinfix
      have hsame : s.address (0 : Int32).toInt = s.address (1 : Int32).toInt := by
        rw [address_eq_endpoint hinfix, address_eq_endpoint hinfix]
      exact absurd (hinjective hsame) (by decide)
  refine ⟨?_, hplace⟩
  rw [← hplace, validate_eq_ok_iff]
  exact and_iff_left htimeout

/-- Two places for the year, between digits and signs. -/
theorem address_injective_between_digits :
    let s : HolidayService :=
      { endpoint := "-1\x7byear\x7d0\x7byear\x7d-2".toList, timeoutSeconds := 1 }
    0 < s.timeoutSeconds ∧ s.validate = .ok () ∧
      Function.Injective fun year : Int32 => s.address year.toInt := by
  intro s
  have htimeout : 0 < s.timeoutSeconds := by decide
  have hvalid : s.validate = .ok () := by decide
  exact ⟨htimeout, hvalid, (validate_iff_address_injective htimeout).1.1 hvalid⟩

end OpeningHours.HolidayService
