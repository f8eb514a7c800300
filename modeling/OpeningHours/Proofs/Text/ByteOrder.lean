import Mathlib.Tactic.SplitIfs
import OpeningHours.Text.Basic

/-!
# The order of texts is the order of their bytes

Texts are compared character by character, by code point. Written in UTF-8 they stand in the same
order when they are compared byte by byte (**`bytes_lt_bytes_iff`**): two different characters differ
in a byte of both, and the greater character has the greater one (`utf8EncodeChar_append_lt`).
-/

namespace OpeningHours.Text

variable {s t : Text} {c d : Char}

/-- The bytes of a text in UTF-8. -/
def bytes (t : Text) : List UInt8 :=
  t.flatMap String.utf8EncodeChar

/-- Bytes are compared as the numbers they are made from. -/
theorem cons_ofNat_lt_cons_ofNat {m n : Nat} (hm : m < 256) (hn : n < 256) (x y : List UInt8) :
    UInt8.ofNat m :: x < UInt8.ofNat n :: y ↔ m < n ∨ m = n ∧ x < y := by
  have hvalue {k : Nat} (hk : k < 256) : (UInt8.ofNat k).toNat = k := UInt8.toNat_ofNat_of_lt' hk
  rw [List.cons_lt_cons_iff, UInt8.lt_iff_toNat_lt, ← UInt8.toNat_inj, hvalue hm, hvalue hn]

/-- Numbers are compared by their digits to the base 64, of which the last three are split off. -/
theorem digits_lt {m n : Nat} (h : m < n) :
    m / 262144 < n / 262144 ∨ m / 262144 = n / 262144 ∧
      (m / 4096 % 64 < n / 4096 % 64 ∨ m / 4096 % 64 = n / 4096 % 64 ∧
        (m / 64 % 64 < n / 64 % 64 ∨ m / 64 % 64 = n / 64 % 64 ∧ m % 64 < n % 64)) := by
  have hlast {a b : Nat} (h : a < b) : a / 64 < b / 64 ∨ a / 64 = b / 64 ∧ a % 64 < b % 64 := by
    omega
  rcases hlast h with h₁ | ⟨h₁, hlt₁⟩
  · rcases hlast h₁ with h₂ | ⟨h₂, hlt₂⟩
    · rcases hlast h₂ with h₃ | ⟨h₃, hlt₃⟩ <;> omega
    · omega
  · omega

/-- The bytes of a smaller character are smaller, whatever stands behind them. -/
theorem utf8EncodeChar_append_lt (h : c < d) (x y : List UInt8) :
    String.utf8EncodeChar c ++ x < String.utf8EncodeChar d ++ y := by
  have hlt : c.val.toNat < d.val.toNat := h
  have hmax : d.val.toNat < 0x110000 := by
    have hvalid := d.valid
    simp only [UInt32.isValidChar, Nat.isValidChar] at hvalid
    omega
  unfold String.utf8EncodeChar
  generalize c.val.toNat = m at hlt ⊢
  generalize d.val.toNat = n at hlt hmax ⊢
  generalize hrest : (x < y) = rest
  have hdigits := digits_lt hlt
  have hlead : m / 262144 % 8 = m / 262144 ∧ n / 262144 % 8 = n / 262144 := by omega
  -- The first byte tells the lengths apart; in one length the bytes are digits to the base 64.
  dsimp only
  split_ifs <;>
    simp (disch := omega) only [List.cons_append, List.nil_append, cons_ofNat_lt_cons_ofNat, hrest] <;>
    omega

theorem bytes_cons (c : Char) (t : Text) : bytes (c :: t) = String.utf8EncodeChar c ++ bytes t :=
  List.flatMap_cons

/-- A smaller text has smaller bytes. The induction is on the way the two texts are compared. -/
theorem bytes_lt_bytes (h : s < t) : bytes s < bytes t := by
  induction h with
  | @nil d t =>
    obtain ⟨b, bs, hb⟩ := List.exists_cons_of_ne_nil (String.utf8EncodeChar_ne_nil (c := d))
    rw [bytes_cons, hb]
    exact .nil
  | @cons c s t _ ih =>
    rw [bytes_cons, bytes_cons]
    exact List.append_left_lt ih
  | rel h =>
    rw [bytes_cons, bytes_cons]
    exact utf8EncodeChar_append_lt h _ _

/-- **Texts stand in the order of their bytes.** -/
theorem bytes_lt_bytes_iff : bytes s < bytes t ↔ s < t := by
  refine ⟨fun h => ?_, bytes_lt_bytes⟩
  by_cases hst : s < t
  · exact hst
  · by_cases hts : t < s
    · exact absurd (bytes_lt_bytes hts) (List.lt_asymm h)
    · obtain rfl := Std.Trichotomous.trichotomous (r := (· < ·)) s t hst hts
      exact absurd h (List.lt_irrefl _)

end OpeningHours.Text
