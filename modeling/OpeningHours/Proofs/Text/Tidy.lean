import Mathlib.Data.List.Basic
import OpeningHours.Text.NormalForm

/-!
# Tidy texts

A text is tidy if it is made of words with one gap between neighbours: a line break, or a space
that stands beside no list mark. Words hold no blanks and no full-width characters. **A tidy text
is its own normal form** (`Tidy.normalize`), so what is written tidily is read as it stands.

Each step of the normal form leaves a tidy stretch alone whatever follows it (`Tidy.collapse`,
`Tidy.tighten`), which is what the induction over the gaps needs.
-/

namespace OpeningHours.Text

/-- Whether the character may stand in a word of a tidy text. -/
def isWordPart (c : Char) : Bool :=
  !isBlank c && halfWidth c == c

/-- Words with single gaps between them. -/
inductive Tidy : Text → Prop where
  | word {w : Text} (hne : w ≠ []) (hw : ∀ c ∈ w, isWordPart c = true) : Tidy w
  | line {t u : Text} (ht : Tidy t) (hu : Tidy u) : Tidy (t ++ '\n' :: u)
  | space {t u : Text} (ht : Tidy t) (hu : Tidy u) (hlast : t.getLast?.any isListMark = false)
      (hhead : u.head?.any isListMark = false) : Tidy (t ++ ' ' :: u)

variable {t rest : Text}

theorem not_isBlank_of_isWordPart {c : Char} (h : isWordPart c = true) : isBlank c = false := by
  simp only [isWordPart, Bool.and_eq_true, Bool.not_eq_true'] at h
  exact h.1

theorem halfWidth_of_isWordPart {c : Char} (h : isWordPart c = true) : halfWidth c = c := by
  simp only [isWordPart, Bool.and_eq_true, beq_iff_eq] at h
  exact h.2

theorem not_isGap_of_isWordPart {c : Char} (h : isWordPart c = true) : isGap c = false := by
  have hb := not_isBlank_of_isWordPart h
  rw [isGap, Bool.or_eq_false_iff]
  refine ⟨beq_eq_false_iff_ne.2 ?_, beq_eq_false_iff_ne.2 ?_⟩
  · rintro rfl
    exact absurd hb (by decide)
  · rintro rfl
    exact absurd hb (by decide)

/-! ## Ends -/

theorem Tidy.head (h : Tidy t) : ∃ c r, t = c :: r ∧ isWordPart c = true := by
  induction h with
  | word hne hw =>
    obtain ⟨c, r, rfl⟩ := List.exists_cons_of_ne_nil hne
    exact ⟨c, r, rfl, hw c List.mem_cons_self⟩
  | line ht hu iht ihu =>
    obtain ⟨c, r, rfl, hc⟩ := iht
    exact ⟨c, _, rfl, hc⟩
  | space ht hu hlast hhead iht ihu =>
    obtain ⟨c, r, rfl, hc⟩ := iht
    exact ⟨c, _, rfl, hc⟩

theorem Tidy.last (h : Tidy t) : ∃ c r, t = r ++ [c] ∧ isWordPart c = true := by
  induction h with
  | @word w hne hw =>
    refine ⟨w.getLast hne, w.dropLast, (List.dropLast_append_getLast hne).symm, ?_⟩
    exact hw _ (List.getLast_mem hne)
  | @line t u ht hu iht ihu =>
    obtain ⟨c, r, rfl, hc⟩ := ihu
    exact ⟨c, t ++ '\n' :: r, by simp, hc⟩
  | @space t u ht hu hlast hhead iht ihu =>
    obtain ⟨c, r, rfl, hc⟩ := ihu
    exact ⟨c, t ++ ' ' :: r, by simp, hc⟩

theorem Tidy.ne_nil (h : Tidy t) : t ≠ [] := by
  obtain ⟨c, r, rfl, -⟩ := h.head
  exact List.cons_ne_nil c r

theorem Tidy.getLast?_append_cons {u : Text} (hu : Tidy u) (t : Text) (c : Char) :
    (t ++ c :: u).getLast? = u.getLast? := by
  obtain ⟨d, r, rfl, -⟩ := hu.last
  simp [List.getLast?_append, List.getLast?_cons]

theorem Tidy.not_isAllBlank (h : Tidy t) : isAllBlank t = false := by
  obtain ⟨c, r, rfl, hc⟩ := h.head
  simp [isAllBlank, not_isBlank_of_isWordPart hc]

/-! ## Making tidy texts -/

theorem Tidy.of_subset {alphabet : List Char} (halphabet : alphabet.all isWordPart = true)
    (ht : t ⊆ alphabet) (hne : t ≠ []) : Tidy t :=
  .word hne fun _ hc => List.all_eq_true.1 halphabet _ (ht hc)

theorem Tidy.word_append {w : Text} (hw : ∀ c ∈ w, isWordPart c = true) (ht : Tidy t) :
    Tidy (w ++ t) := by
  induction ht with
  | word hne hv =>
    refine .word (by simp [hne]) fun c hc => ?_
    exact (List.mem_append.1 hc).elim (hw c) (hv c)
  | line ht hu iht ihu =>
    rw [← List.append_assoc]
    exact iht.line hu
  | @space t u ht hu hlast hhead iht ihu =>
    have hlast' : (w ++ t).getLast? = t.getLast? := by
      obtain ⟨c, r, rfl, -⟩ := ht.last
      simp [← List.append_assoc]
    rw [← List.append_assoc]
    exact iht.space hu (by rwa [hlast']) hhead

theorem Tidy.append {u : Text} (ht : Tidy t) (hu : Tidy u) : Tidy (t ++ u) := by
  induction ht with
  | word hne hw => exact hu.word_append hw
  | line ht hv iht ihv =>
    rw [List.append_assoc]
    exact ht.line ihv
  | @space t v ht hv hlast hhead iht ihv =>
    have hhead' : (v ++ u).head? = v.head? := by
      obtain ⟨c, r, rfl, -⟩ := hv.head
      rfl
    rw [← hhead'] at hhead
    rw [List.append_assoc]
    exact ht.space ihv hlast hhead

theorem Tidy.append_cons {u : Text} (ht : Tidy t) {c : Char} (hc : isWordPart c = true)
    (hu : Tidy u) : Tidy (t ++ c :: u) :=
  ht.append (hu.word_append (w := [c]) (by simpa using hc))

/-- Where there are no list marks, a space may stand between any two tidy texts. -/
theorem Tidy.space_of_no_mark {u : Text} (ht : Tidy t) (hu : Tidy u)
    (hmark : ∀ c ∈ t ++ u, isListMark c = false) : Tidy (t ++ ' ' :: u) := by
  obtain ⟨c, r, rfl, -⟩ := ht.last
  obtain ⟨d, s, rfl, -⟩ := hu.head
  have hc := hmark c (by simp)
  have hd := hmark d (by simp)
  exact ht.space hu (by simp [hc]) (by simp [hd])

/-! ## Trimming -/

/-- Trimming takes nothing away if no gap and no blank can be trimmed. -/
theorem Tidy.trimBy {p : Char → Bool} (h : Tidy t)
    (hp : ∀ c, isWordPart c = true → p c = false) : trimBy p t = t := by
  obtain ⟨c, r, hcr, hc⟩ := h.head
  obtain ⟨d, s, hds, hd⟩ := h.last
  have hstart : t.dropWhile p = t := by
    rw [hcr]
    exact List.dropWhile_cons_of_neg (by simp [hp c hc])
  have hend : t.reverse.dropWhile p = t.reverse := by
    rw [hds, List.reverse_append]
    exact List.dropWhile_cons_of_neg (by simp [hp d hd])
  rw [Text.trimBy, trimEndBy, hstart, hend, List.reverse_reverse]

/-! ## The steps of the normal form -/

theorem map_halfWidth_of_isWordPart {w : Text} (hw : ∀ c ∈ w, isWordPart c = true) :
    w.map halfWidth = w :=
  calc w.map halfWidth = w.map id :=
        List.map_congr_left fun c hc => halfWidth_of_isWordPart (hw c hc)
    _ = w := List.map_id w

theorem Tidy.map_halfWidth (h : Tidy t) : t.map halfWidth = t := by
  induction h with
  | word hne hw => exact map_halfWidth_of_isWordPart hw
  | line ht hu iht ihu => rw [List.map_append, List.map_cons, iht, ihu]; rfl
  | space ht hu hlast hhead iht ihu => rw [List.map_append, List.map_cons, iht, ihu]; rfl

theorem collapse_word {w : Text} (hw : ∀ c ∈ w, isWordPart c = true) (rest : Text) :
    collapse none (w ++ rest) = w ++ collapse none rest := by
  induction w with
  | nil => rfl
  | cons c w ih =>
    have hc := not_isBlank_of_isWordPart (hw c List.mem_cons_self)
    rw [List.cons_append, Text.collapse, hc, if_neg Bool.false_ne_true,
      ih fun d hd => hw d (List.mem_cons_of_mem c hd)]
    rfl

/-- What the blanks in front of a tidy stretch have become is written in front of it. -/
theorem Tidy.collapse (h : Tidy t) (gap : Option Char) (rest : Text) :
    collapse gap (t ++ rest) = gap.toList ++ (t ++ Text.collapse none rest) := by
  induction h generalizing gap rest with
  | word hne hw =>
    obtain ⟨c, r, rfl⟩ := List.exists_cons_of_ne_nil hne
    have hc := not_isBlank_of_isWordPart (hw c List.mem_cons_self)
    rw [List.cons_append, Text.collapse, hc, if_neg Bool.false_ne_true,
      collapse_word (fun d hd => hw d (List.mem_cons_of_mem c hd))]
    rfl
  | line ht hu iht ihu =>
    have hgap : Text.collapse none ('\n' :: (_ ++ rest)) = '\n' :: (_ ++ Text.collapse none rest) :=
      ihu (some '\n') rest
    rw [List.append_assoc, List.cons_append, iht, hgap, List.append_assoc, List.cons_append]
  | space ht hu hlast hhead iht ihu =>
    have hgap : Text.collapse none (' ' :: (_ ++ rest)) = ' ' :: (_ ++ Text.collapse none rest) :=
      ihu (some ' ') rest
    rw [List.append_assoc, List.cons_append, iht, hgap, List.append_assoc, List.cons_append]

theorem tighten_cons_of_ne (before : Option Char) {c : Char} (hc : c ≠ ' ') (rest : Text) :
    tighten before (c :: rest) = c :: tighten (some c) rest := by
  rw [tighten, if_neg fun h => hc h.1]

theorem tighten_word {w : Text} (hw : ∀ c ∈ w, isWordPart c = true) (before : Option Char)
    (rest : Text) : tighten before (w ++ rest) = w ++ tighten (w.getLast?.or before) rest := by
  induction w generalizing before with
  | nil => rfl
  | cons c w ih =>
    have hc : c ≠ ' ' := by
      rintro rfl
      exact absurd (hw ' ' List.mem_cons_self) (by decide)
    rw [List.cons_append, tighten_cons_of_ne before hc,
      ih (fun d hd => hw d (List.mem_cons_of_mem c hd)), getLast?_cons_or, List.cons_append]

theorem Tidy.tighten (h : Tidy t) (before : Option Char) (rest : Text) :
    tighten before (t ++ rest) = t ++ Text.tighten t.getLast? rest := by
  induction h generalizing before rest with
  | @word w hne hw =>
    rw [tighten_word hw]
    cases hlast : w.getLast? with
    | none => exact absurd (List.getLast?_eq_none_iff.1 hlast) hne
    | some c => rfl
  | @line t u ht hu iht ihu =>
    rw [List.append_assoc, List.cons_append, iht, tighten_cons_of_ne _ (by decide), ihu,
      hu.getLast?_append_cons, List.append_assoc, List.cons_append]
  | @space t u ht hu hlast hhead iht ihu =>
    have hlast' := hu.getLast?_append_cons t ' '
    obtain ⟨c, r, rfl, -⟩ := hu.head
    have hstay : ¬ (' ' = ' ' ∧ ((t.getLast?).any isListMark = true ∨
        ((c :: r) ++ rest).head?.any isListMark = true)) := by
      rw [hlast]
      simpa using hhead
    rw [List.append_assoc, List.cons_append, iht, Text.tighten, if_neg hstay, ihu, hlast',
      List.append_assoc]
    rfl

/-- **A tidy text is its own normal form.** -/
theorem Tidy.normalize (h : Tidy t) : normalize t = t := by
  have hcollapse := h.collapse none []
  have htighten := h.tighten none []
  simp only [List.append_nil, Text.collapse, Text.tighten, Option.toList_none,
    List.nil_append] at hcollapse htighten
  rw [Text.normalize, h.map_halfWidth, hcollapse, htighten,
    h.trimBy fun c => not_isGap_of_isWordPart]

theorem Tidy.trim (h : Tidy t) : trim t = t :=
  h.trimBy fun _ => not_isBlank_of_isWordPart

end OpeningHours.Text
