import Mathlib.Data.List.Basic
import OpeningHours.Hours.WrittenTime
import OpeningHours.Proofs.Pattern.Alphabet

/-!
# Numerals of one or two digits

Hours, minutes, months and days are written with one or two ASCII digits. `ShortNumeral` is such a
numeral as it is written, so `9` and `09` are two numerals of one value, and `ColonTime` is a clock
time of the form `9:00`. In front of anything but a digit, the digits of a numeral are taken
together (`prefers_oneOrTwoDigits`); a pattern that needs something else behind the digits fails
(`fails_digits_seq`).
-/

namespace OpeningHours

/-! ## Numerals -/

/-- An ASCII digit. -/
structure Digit where
  char : Char
  isDigit : char.isDigit = true := by decide

/-- The digit of a number below ten. -/
def Digit.of (n : Fin 10) : Digit :=
  ⟨Nat.digitChar n, by revert n; decide⟩

/-- A numeral of one or two digits. -/
inductive ShortNumeral where
  | one (d : Digit)
  | two (d e : Digit)

namespace ShortNumeral

/-- The numeral as it is written. -/
def text : ShortNumeral → Text
  | one d => [d.char]
  | two d e => [d.char, e.char]

/-- The number that the numeral stands for. -/
def value : ShortNumeral → Nat
  | one d => Decimal.digitValue d.char
  | two d e => 10 * Decimal.digitValue d.char + Decimal.digitValue e.char

@[simp] theorem value_text (n : ShortNumeral) : Decimal.value n.text = n.value := by
  cases n with
  | one d => simp [text, value, Decimal.value, Decimal.valueFrom]
  | two d e => simp [text, value, Decimal.value, Decimal.valueFrom]

theorem isDigit_of_mem_text {n : ShortNumeral} {c : Char} (hc : c ∈ n.text) :
    c.isDigit = true := by
  cases n with
  | one d =>
    rw [List.mem_singleton.1 hc]
    exact d.isDigit
  | two d e =>
    rcases List.mem_cons.1 hc with rfl | hc
    · exact d.isDigit
    · rw [List.mem_singleton.1 hc]
      exact e.isDigit

end ShortNumeral

/-- The ten ASCII digits. -/
def asciiDigits : List Char :=
  ['0', '1', '2', '3', '4', '5', '6', '7', '8', '9']

theorem mem_asciiDigits {c : Char} (hc : c.isDigit = true) : c ∈ asciiDigits := by
  have hall : ∀ n : Fin 10, Char.ofNat (48 + n) ∈ asciiDigits := by decide
  have hrange : 48 ≤ c.toNat ∧ c.toNat ≤ 57 := by
    simp only [Char.isDigit, Bool.and_eq_true, decide_eq_true_eq, UInt32.le_iff_toNat_le] at hc
    exact hc
  have hn := hall ⟨c.toNat - 48, by omega⟩
  have hc' : Char.ofNat (48 + (c.toNat - 48)) = c := by
    rw [Nat.add_sub_cancel' hrange.1, Char.ofNat_toNat]
  rwa [hc'] at hn

theorem ShortNumeral.text_subset (n : ShortNumeral) : n.text ⊆ asciiDigits :=
  fun _ hc => mem_asciiDigits (isDigit_of_mem_text hc)

/-! ## Digits in patterns -/

namespace Pattern

variable {n : ShortNumeral} {q : Pattern} {rest : Text} {before : Option Char} {h : Hit}

@[simp] theorem mayBeEmpty_oneOrTwoDigits : oneOrTwoDigits.mayBeEmpty = false := rfl

@[simp] theorem mayStart_oneOrTwoDigits (c : Char) :
    oneOrTwoDigits.mayStart c = c.isDigit := by
  rw [oneOrTwoDigits, mayStart_append]
  exact Bool.or_false _

theorem hits_digit (d : Digit) (before : Option Char) (rest : Text) :
    digit.hits before (d.char :: rest) = [⟨[d.char], [], rest⟩] := by
  simp [digit, hits, d.isDigit]

/-- A pattern that starts with no digit fails in front of one. -/
theorem fails_of_digit {p : Pattern} (hp : (asciiDigits.all fun c => !p.mayStart c) = true)
    (he : p.mayBeEmpty = false) (d : Digit) (rest : Text) : p.Fails (d.char :: rest) := by
  have hd := List.all_eq_true.1 hp d.char (mem_asciiDigits d.isDigit)
  exact fails_of_mayStart (by simpa using hd) he rest

theorem fails_digit (hrest : rest.head?.any Char.isDigit = false) : digit.Fails rest := by
  cases rest with
  | nil => exact fails_one_nil _
  | cons c r => exact fails_one (by simpa using hrest) r

theorem prefers_digit (d : Digit) (rest : Text) :
    digit.Prefers (d.char :: rest) ⟨[d.char], [], rest⟩ :=
  prefers_one d.isDigit rest

/-- The digits of a numeral are taken together. -/
theorem prefers_oneOrTwoDigits (n : ShortNumeral) (hrest : rest.head?.any Char.isDigit = false) :
    oneOrTwoDigits.Prefers (n.text ++ rest) ⟨n.text, [], rest⟩ := by
  cases n with
  | one d => exact (prefers_digit d rest).seq (fails_digit hrest).opt
  | two d e => exact (prefers_digit d (e.char :: rest)).seq (prefers_digit e rest).opt

/-- No blanks are taken in front of a numeral. -/
theorem prefers_blanks_numeral (n : ShortNumeral) (rest : Text) :
    blanks.Prefers (n.text ++ rest) (.nothing (n.text ++ rest)) := by
  have hall : (asciiDigits.all fun c => !Text.isBlank c) = true := by decide
  have hblank (d : Digit) : Text.isBlank d.char = false := by
    simpa using List.all_eq_true.1 hall d.char (mem_asciiDigits d.isDigit)
  apply prefers_blanks_nothing
  cases n with
  | one d => exact hblank d
  | two d e => exact hblank d

/-- What may be left of a numeral: nothing, or its second digit. -/
theorem rest_of_mem_hits_oneOrTwoDigits (hrest : rest.head?.any Char.isDigit = false)
    (hh : h ∈ oneOrTwoDigits.hits before (n.text ++ rest)) :
    h.rest = rest ∨ ∃ e : Digit, h.rest = e.char :: rest := by
  rw [oneOrTwoDigits] at hh
  change h ∈ (digit.seq digit.opt).hits before (n.text ++ rest) at hh
  obtain ⟨g, hg, k, hk, rfl⟩ := mem_hits_seq.1 hh
  cases n with
  | one d =>
    have hg' : g ∈ digit.hits before (d.char :: rest) := hg
    rw [hits_digit, List.mem_singleton] at hg'
    subst hg'
    change k ∈ (digit.alt empty).hits _ rest at hk
    rw [hits, fails_digit hrest, List.nil_append] at hk
    rw [List.mem_singleton.1 hk]
    exact .inl rfl
  | two d e =>
    have hg' : g ∈ digit.hits before (d.char :: e.char :: rest) := hg
    rw [hits_digit, List.mem_singleton] at hg'
    subst hg'
    change k ∈ (digit.alt empty).hits _ (e.char :: rest) at hk
    rw [hits, List.mem_append, hits_digit, List.mem_singleton] at hk
    rcases hk with rfl | hk
    · exact .inl rfl
    · rw [List.mem_singleton.1 hk]
      exact .inr ⟨e, rfl⟩

/-- What needs something else than a second digit behind a numeral fails in front of the rest. -/
theorem fails_digits_seq (slot : Slot) (hrest : rest.head?.any Char.isDigit = false)
    (hq : q.Fails rest) (hdigit : ∀ e : Digit, q.Fails (e.char :: rest)) :
    (keep slot oneOrTwoDigits ++ q).Fails (n.text ++ rest) := by
  apply Fails.seq
  intro before h hh
  obtain ⟨g, hg, rfl⟩ := mem_hits_keep.1 hh
  show q.Fails g.rest
  obtain hg' | ⟨e, hg'⟩ := rest_of_mem_hits_oneOrTwoDigits hrest hg
  · rw [hg']
    exact hq
  · rw [hg']
    exact hdigit e

/-- A numeral is passed over by what fails at every numeral in its place. -/
theorem skips_numeral {p : Pattern} (n : ShortNumeral)
    (hp : ∀ m : ShortNumeral, p.Fails (m.text ++ rest)) : p.Skips n.text rest := by
  cases n with
  | one d => exact ⟨first?_of_fails (hp (.one d)), trivial⟩
  | two d e => exact ⟨first?_of_fails (hp (.two d e)), first?_of_fails (hp (.one e)), trivial⟩

end Pattern

/-! ## Clock times -/

/-- A clock time with a colon, as it is written. -/
structure ColonTime where
  hour : ShortNumeral
  tens : Digit
  units : Digit

namespace ColonTime

/-- The clock time as it is written. -/
def text (t : ColonTime) : Text :=
  t.hour.text ++ [':', t.tens.char, t.units.char]

/-- The minute of the hour that is written. -/
def minute (t : ColonTime) : Nat :=
  10 * Decimal.digitValue t.tens.char + Decimal.digitValue t.units.char

/-- A clock time is read where it is written. -/
theorem prefers_clock (t : ColonTime) (s : ClockSlots) (rest : Text) :
    (Wording.clock s).Prefers (t.text ++ rest)
      ⟨t.text, [(s.minute, [t.tens.char, t.units.char]), (s.hour, t.hour.text)], rest⟩ := by
  have hhour : (Pattern.keep s.hour Pattern.oneOrTwoDigits).Prefers
      (t.hour.text ++ ':' :: t.tens.char :: t.units.char :: rest) _ :=
    (Pattern.prefers_oneOrTwoDigits t.hour rfl).keep s.hour
  have hcolon := Pattern.prefers_word ":" (t.tens.char :: t.units.char :: rest)
  have hminute := ((Pattern.prefers_digit t.tens (t.units.char :: rest)).seq
    (Pattern.prefers_digit t.units rest)).keep s.minute
  have hclock := hhour.seq ((hcolon.seq hminute).alt_left
    (.word "時" ++ .opt ((.keep s.minute .oneOrTwoDigits ++ .word "分") |||
      .keep s.half (.word "半"))))
  rw [text, List.append_assoc]
  exact hclock

theorem text_subset {alphabet : List Char} (t : ColonTime) (hdigits : asciiDigits ⊆ alphabet)
    (hcolon : ':' ∈ alphabet) : t.text ⊆ alphabet := by
  have htens := hdigits (mem_asciiDigits t.tens.isDigit)
  have hunits := hdigits (mem_asciiDigits t.units.isDigit)
  refine List.append_subset.2 ⟨List.Subset.trans t.hour.text_subset hdigits, ?_⟩
  simp [hcolon, htens, hunits]

end ColonTime

end OpeningHours
