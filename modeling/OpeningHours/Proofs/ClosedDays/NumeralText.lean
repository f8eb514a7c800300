import Mathlib.Data.List.Basic
import OpeningHours.ClosedDays.Reading
import OpeningHours.Proofs.Pattern.Digits
import OpeningHours.Proofs.Text.Tidy

/-!
# Numerals for days and ordinals as they are written

A day of the month is written with one or two ASCII digits or in kanji with units (`二十五`), an
ordinal for weekdays with one digit of either kind. `DayNumeral` and `OrdinalNumeral` are these
numerals with the bounds that their values keep. Each is read as its value
(`numeralUpTo?_dayNumeral`, `numeralUpTo?_ordinalNumeral`), and a day is taken as a whole in front
of anything that goes on with no numeral (`prefers_dayNumber`).
-/

namespace OpeningHours

open Pattern

/-! ## Kanji numerals -/

namespace Kanji

/-- The kanji for a digit. -/
def digitChar (n : Nat) : Char :=
  match n with
  | 1 => '一'
  | 2 => '二'
  | 3 => '三'
  | 4 => '四'
  | 5 => '五'
  | 6 => '六'
  | 7 => '七'
  | 8 => '八'
  | 9 => '九'
  | _ => '〇'

/-- A number below a hundred in kanji with the unit for tens. -/
def writePositional (n : Nat) : Text :=
  (if n < 20 then [] else [digitChar (n / 10)]) ++ (if n < 10 then [] else ['十']) ++
    (if n % 10 = 0 then [] else [digitChar (n % 10)])

end Kanji

/-- The kanji of days and ordinals. -/
def numeralKanji : List Char :=
  ['一', '二', '三', '四', '五', '六', '七', '八', '九', '十']

/-- A day of the month takes one to three kanji. -/
theorem Kanji.writePositional_spec (n : Fin 32) (first : 1 ≤ n.val) :
    writePositional n ⊆ numeralKanji ∧ writePositional n ≠ [] ∧ (writePositional n).length ≤ 3 := by
  have hall : ∀ n : Fin 32, 1 ≤ n.val → writePositional n ⊆ numeralKanji ∧
      writePositional n ≠ [] ∧ (writePositional n).length ≤ 3 := by decide
  exact hall n first

/-! ## Days of the month -/

/-- The number of a day of the month, as it is written. -/
inductive DayNumeral where
  | digits (n : ShortNumeral) (first : 1 ≤ n.value) (last : n.value ≤ 31)
  | kanji (n : Fin 32) (first : 1 ≤ n.val)

namespace DayNumeral

/-- The number as it is written. -/
def text : DayNumeral → Text
  | digits n _ _ => n.text
  | kanji n _ => Kanji.writePositional n

/-- The day that is meant. -/
def value : DayNumeral → Nat
  | digits n _ _ => n.value
  | kanji n _ => n

/-- The characters of numerals for days. -/
def alphabet : List Char :=
  asciiDigits ++ numeralKanji

theorem text_subset (d : DayNumeral) : d.text ⊆ alphabet := by
  cases d with
  | digits n first last => exact List.subset_append_of_subset_left _ n.text_subset
  | kanji n first =>
    exact List.subset_append_of_subset_right _ (Kanji.writePositional_spec n first).1

end DayNumeral

theorem read?_shortNumeral (n : ShortNumeral) :
    Kanji.read? n.text = some (UInt32.ofNat n.value) := by
  have hne : n.text ≠ [] := by cases n <;> simp [ShortNumeral.text]
  have hword : asciiDigits.all Text.isWordPart = true := by decide
  have htrim : Text.trim n.text = n.text := (Text.Tidy.of_subset hword n.text_subset hne).trim
  have hdigits : n.text.all Char.isDigit = true :=
    List.all_eq_true.2 fun c hc => ShortNumeral.isDigit_of_mem_text hc
  have hlt : n.value < UInt32.size := by
    have hdigit (d : Digit) : Decimal.digitValue d.char < 10 := by
      have hall : (asciiDigits.all fun c => Decimal.digitValue c < 10) = true := by decide
      simpa using List.all_eq_true.1 hall d.char (mem_asciiDigits d.isDigit)
    cases n with
    | one d =>
      have := hdigit d
      simp only [ShortNumeral.value, UInt32.size]
      omega
    | two d e =>
      have := hdigit d
      have := hdigit e
      simp only [ShortNumeral.value, UInt32.size]
      omega
  simp [Kanji.read?, htrim, hne, hdigits, Kanji.word?, hlt]

/-- A day is read as its value. -/
theorem numeralUpTo?_dayNumeral (d : DayNumeral) : numeralUpTo? 31 d.text = some d.value := by
  cases d with
  | digits n first last =>
    have hlt : n.value < 2 ^ 32 := by omega
    have hvalue : (UInt32.ofNat n.value).toNat = n.value := UInt32.toNat_ofNat_of_lt' hlt
    have hread : Kanji.read? (DayNumeral.digits n first last).text = some (UInt32.ofNat n.value) :=
      read?_shortNumeral n
    simp [numeralUpTo?, hread, hvalue, first, last, DayNumeral.value]
  | kanji n first =>
    have hall : ∀ n : Fin 32, 1 ≤ n.val →
        numeralUpTo? 31 (Kanji.writePositional n) = some n.val := by decide
    exact hall n first

/-! ## Days in patterns -/

theorem isDigit_of_mem_numeralKanji {c : Char} (hc : c ∈ numeralKanji) : c.isDigit = false := by
  have hall : (numeralKanji.all fun c => !c.isDigit) = true := by decide
  simpa using List.all_eq_true.1 hall c hc

/-- Kanji of a numeral are taken together, up to three of them. -/
theorem prefers_kanjiDigits {w rest : Text} (hw : w ⊆ numeralKanji) (hne : w ≠ [])
    (hlen : w.length ≤ 3) (hrest : Wording.Closed.kanjiDigit.Fails rest) :
    (Wording.Closed.kanjiDigit ++
      opt (Wording.Closed.kanjiDigit ++ opt Wording.Closed.kanjiDigit)).Prefers (w ++ rest)
        ⟨w, [], rest⟩ := by
  have hkanji {c : Char} (hc : c ∈ w) (r : Text) :
      Wording.Closed.kanjiDigit.Prefers (c :: r) ⟨[c], [], r⟩ := by
    have hall : (numeralKanji.all fun c => "〇一二三四五六七八九十".toList.contains c) = true := by
      decide
    exact prefers_one (List.all_eq_true.1 hall c (hw hc)) r
  match w, hne with
  | [a], _ => exact (hkanji (by simp) rest).seq (hrest.seq_left _).opt
  | [a, b], _ =>
    exact (hkanji (by simp) (b :: rest)).seq ((hkanji (by simp) rest).seq hrest.opt).opt
  | [a, b, c], _ =>
    exact (hkanji (by simp) (b :: c :: rest)).seq
      ((hkanji (by simp) (c :: rest)).seq (hkanji (by simp) rest).opt).opt
  | _ :: _ :: _ :: _ :: _, _ =>
    simp only [List.length_cons] at hlen
    omega

/-- **A day is taken as a whole** in front of anything that goes on with no numeral. -/
theorem prefers_dayNumber (d : DayNumeral) {rest : Text}
    (hdigit : rest.head?.any Char.isDigit = false) (hkanji : Wording.Closed.kanjiDigit.Fails rest) :
    Wording.Closed.dayNumber.Prefers (d.text ++ rest) ⟨d.text, [], rest⟩ := by
  cases d with
  | digits n first last => exact (prefers_oneOrTwoDigits n hdigit).alt_left _
  | kanji n first =>
    obtain ⟨hsub, hne, hlen⟩ := Kanji.writePositional_spec n first
    have htaken := prefers_kanjiDigits hsub hne hlen hkanji
    have hnoDigit : oneOrTwoDigits.Fails (Kanji.writePositional n ++ rest) := by
      obtain ⟨c, r, hc⟩ := List.exists_cons_of_ne_nil hne
      rw [hc]
      have hcmem : c ∈ numeralKanji := hsub (by rw [hc]; exact List.mem_cons_self)
      exact fails_of_mayStart
        (by rw [mayStart_oneOrTwoDigits, isDigit_of_mem_numeralKanji hcmem]) rfl _
    exact .alt_right hnoDigit htaken

/-- No blanks are taken in front of a day. -/
theorem prefers_blanks_dayNumeral (d : DayNumeral) (rest : Text) :
    blanks.Prefers (d.text ++ rest) (.nothing (d.text ++ rest)) := by
  cases d with
  | digits n first last => exact prefers_blanks_numeral n rest
  | kanji n first =>
    have hall : (numeralKanji.all fun c => !Text.isBlank c) = true := by decide
    obtain ⟨hsub, hne, -⟩ := Kanji.writePositional_spec n first
    obtain ⟨c, r, hc⟩ := List.exists_cons_of_ne_nil hne
    have hcmem : c ∈ numeralKanji := hsub (by rw [hc]; exact List.mem_cons_self)
    apply prefers_blanks_nothing
    rw [DayNumeral.text, hc]
    simpa using List.all_eq_true.1 hall c hcmem

/-! ## Ordinals -/

/-- An ordinal number for weekdays, as it is written. -/
structure OrdinalNumeral where
  value : Fin 6
  first : 1 ≤ value.val
  inKanji : Bool

namespace OrdinalNumeral

/-- The number as it is written. -/
def char (n : OrdinalNumeral) : Char :=
  if n.inKanji then Kanji.digitChar n.value else Nat.digitChar n.value

theorem char_mem (n : OrdinalNumeral) :
    n.char ∈ ['1', '2', '3', '4', '5', '一', '二', '三', '四', '五'] := by
  have hall : ∀ (n : Fin 6) (inKanji : Bool), 1 ≤ n.val →
      (if inKanji then Kanji.digitChar n else Nat.digitChar n) ∈
        ['1', '2', '3', '4', '5', '一', '二', '三', '四', '五'] := by decide
  exact hall n.value n.inKanji n.first

end OrdinalNumeral

/-- An ordinal is read as its value. -/
theorem numeralUpTo?_ordinalNumeral (n : OrdinalNumeral) :
    numeralUpTo? 5 [n.char] = some n.value.val := by
  have hall : ∀ (n : Fin 6) (inKanji : Bool), 1 ≤ n.val →
      numeralUpTo? 5 [if inKanji then Kanji.digitChar n else Nat.digitChar n] =
        some n.val := by decide
  exact hall n.value n.inKanji n.first

theorem prefers_ordinalDigit (n : OrdinalNumeral) (rest : Text) :
    Wording.Closed.ordinalDigit.Prefers (n.char :: rest) ⟨[n.char], [], rest⟩ := by
  have hall : (['1', '2', '3', '4', '5', '一', '二', '三', '四', '五'].all fun c =>
      "12345一二三四五".toList.contains c) = true := by decide
  exact prefers_one (List.all_eq_true.1 hall _ n.char_mem) rest

end OpeningHours
