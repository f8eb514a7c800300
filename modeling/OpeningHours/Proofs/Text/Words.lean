import Mathlib.Data.List.Basic
import OpeningHours.Proofs.Text.Pieces

/-!
# The words of a text

Collapsing the blanks of a text keeps its words (**`words_collapseBlanks`**), so it is done once and
for all (`collapseBlanks_collapseBlanks`). What it leaves of the blanks are spaces
(`eq_space_of_mem_collapseBlanks`), no two of them beside each other
(`not_infix_collapseBlanks`), and a text that starts or ends with a character of a word still does
(`head?_collapseBlanks`, `getLast?_collapseBlanks`).
-/

namespace OpeningHours.Text

variable {isSep : Char → Bool} {b c d : Char} {t w : Text} {ws : List Text}

/-! ## Pieces without separators -/

/-- Induction over the separators of a text: it is a piece without separators, or such a
piece and a separator in front of a text. -/
theorem cut_induction (isSep : Char → Bool) {P : Text → Prop}
    (hpiece : ∀ w, (∀ c ∈ w, isSep c = false) → P w)
    (hcut : ∀ w c r, (∀ d ∈ w, isSep d = false) → isSep c = true → P r → P (w ++ c :: r))
    (t : Text) : P t := by
  have hfront : ∀ w, (∀ c ∈ w, isSep c = false) → P (w ++ t) := by
    induction t with
    | nil =>
      intro w hw
      rw [List.append_nil]
      exact hpiece w hw
    | cons c t ih =>
      intro w hw
      cases hc : isSep c with
      | true => exact hcut w c t hw hc (ih [] (by simp))
      | false =>
        have hlonger : ∀ d ∈ w ++ [c], isSep d = false := by
          intro d hd
          rcases List.mem_append.1 hd with hd | hd
          · exact hw d hd
          · rw [List.mem_singleton.1 hd, hc]
        simpa using ih (w ++ [c]) hlonger
  exact hfront [] (by simp)

theorem not_sep_of_mem_cut {p : Text} (hp : p ∈ cut isSep t) : ∀ c ∈ p, isSep c = false := by
  induction t using cut_induction isSep with
  | hpiece w hw =>
    rw [cut_of_no_separator hw, List.mem_singleton] at hp
    rwa [hp]
  | hcut w c r hw hc ih =>
    rw [cut_append_cons hc, cut_of_no_separator hw, List.singleton_append, List.mem_cons] at hp
    rcases hp with rfl | hp
    · exact hw
    · exact ih hp

/-- A text joined from pieces without separators is cut into these pieces. -/
theorem cut_intercalate {ws : List Text} (hne : ws ≠ [])
    (hws : ∀ w ∈ ws, ∀ c ∈ w, isSep c = false) (hb : isSep b = true) : cut isSep ([b].intercalate ws) = ws := by
  match ws, hne with
  | [w], _ =>
    rw [List.intercalate_singleton]
    exact cut_of_no_separator (hws w List.mem_cons_self)
  | w :: v :: vs, _ =>
    have hrest := cut_intercalate (List.cons_ne_nil v vs)
      (fun u hu => hws u (List.mem_cons_of_mem w hu)) hb
    rw [List.intercalate_cons_cons, List.append_assoc, List.singleton_append, cut_append_cons hb,
      hrest, cut_of_no_separator (hws w List.mem_cons_self), List.singleton_append]

/-! ## Words -/

/-- A word: some characters, none of them blank. -/
structure IsWord (w : Text) : Prop where
  ne_nil : w ≠ []
  inside : ∀ c ∈ w, isBlank c = false

theorem isWord_of_mem_words (hw : w ∈ words t) : IsWord w := by
  obtain ⟨hmem, hne⟩ := List.mem_filter.1 hw
  exact ⟨of_decide_eq_true hne, not_sep_of_mem_cut hmem⟩

theorem words_of_isWord (hw : IsWord w) : words w = [w] := by
  rw [words, cut_of_no_separator hw.inside, List.filter_eq_self]
  simpa using hw.ne_nil

/-- The words in front of a blank and those behind it. -/
theorem words_append_cons (hc : isBlank c = true) (s t : Text) :
    words (s ++ c :: t) = words s ++ words t := by
  rw [words, cut_append_cons hc, List.filter_append]
  rfl

theorem words_intercalate (hws : ∀ w ∈ ws, IsWord w) : words ([' '].intercalate ws) = ws := by
  by_cases hne : ws = []
  · rw [hne]
    rfl
  · rw [words, cut_intercalate hne (fun w hw => (hws w hw).inside) (by decide),
      List.filter_eq_self]
    intro w hw
    exact decide_eq_true (hws w hw).ne_nil

/-- **Collapsing the blanks keeps the words.** -/
theorem words_collapseBlanks (t : Text) : words (collapseBlanks t) = words t :=
  words_intercalate fun _ => isWord_of_mem_words

theorem collapseBlanks_collapseBlanks (t : Text) :
    collapseBlanks (collapseBlanks t) = collapseBlanks t := by
  rw [collapseBlanks, words_collapseBlanks, collapseBlanks]

/-! ## The blanks that are left -/

theorem eq_space_of_mem_collapseBlanks (hc : c ∈ collapseBlanks t) (hblank : isBlank c = true) :
    c = ' ' := by
  by_cases hne : words t = []
  · rw [collapseBlanks, hne] at hc
    exact absurd hc List.not_mem_nil
  · revert c
    refine intercalate_induction (P := fun u => ∀ {c}, c ∈ u → isBlank c = true → c = ' ')
      ?_ hne ?_
    · intro u v hu hv c hc hblank
      rcases List.mem_append.1 hc with hc | hc
      · exact hu hc hblank
      · rcases List.mem_cons.1 hc with rfl | hc
        · rfl
        · exact hv hc hblank
    · intro w hw c hc hblank
      rw [(isWord_of_mem_words hw).inside c hc] at hblank
      exact absurd hblank Bool.false_ne_true

/-- Between two blanks beside each other there would be an empty piece, and no word is empty. -/
theorem not_infix_collapseBlanks (hb : isBlank b = true) (hd : isBlank d = true) :
    ¬ [b, d] <:+: collapseBlanks t := by
  rintro ⟨s, r, hsr⟩
  by_cases hne : words t = []
  · rw [collapseBlanks, hne] at hsr
    exact absurd (congrArg List.length hsr) (by simp)
  · have hcut : cut isBlank (collapseBlanks t) = words t :=
      cut_intercalate hne (fun w hw => (isWord_of_mem_words hw).inside) (by decide)
    have hempty : [] ∈ cut isBlank (collapseBlanks t) := by
      rw [← hsr, List.append_assoc, List.cons_append, cut_append_cons hb, List.singleton_append,
        cut, if_pos hd]
      simp
    rw [hcut] at hempty
    exact (isWord_of_mem_words hempty).ne_nil rfl

/-! ## Ends -/

theorem head?_intercalate_cons (hw : w ≠ []) (ws : List Text) :
    ([' '].intercalate (w :: ws)).head? = w.head? := by
  obtain ⟨c, v, rfl⟩ := List.exists_cons_of_ne_nil hw
  cases ws with
  | nil => rw [List.intercalate_singleton]
  | cons u us => rw [List.intercalate_cons_cons]; rfl

theorem getLast?_intercalate_concat (hw : w ≠ []) (ws : List Text) :
    ([' '].intercalate (ws ++ [w])).getLast? = w.getLast? := by
  have hlast := intercalate_concat_append ' ' ws [] w
  rw [List.nil_append] at hlast
  rw [← hlast]
  exact List.getLast?_append_of_ne_nil _ hw

/-- A text that starts with a character of a word starts with a word. -/
theorem exists_words_eq_cons (hhead : t.head? = some c) (hc : isBlank c = false) :
    ∃ w ws, words t = w :: ws ∧ w.head? = some c := by
  induction t using cut_induction isBlank with
  | hpiece w hw =>
    have hne : w ≠ [] := by
      rintro rfl
      simp at hhead
    exact ⟨w, [], words_of_isWord ⟨hne, hw⟩, hhead⟩
  | hcut w b r hw hb ih =>
    have hne : w ≠ [] := by
      rintro rfl
      obtain rfl : b = c := by simpa using hhead
      rw [hb] at hc
      exact absurd hc.symm Bool.false_ne_true
    refine ⟨w, words r, ?_, ?_⟩
    · rw [words_append_cons hb, words_of_isWord ⟨hne, hw⟩, List.singleton_append]
    · rwa [List.head?_append_of_ne_nil _ hne] at hhead

/-- A text that ends with a character of a word ends with a word. -/
theorem exists_words_eq_concat (hlast : t.getLast? = some c) (hc : isBlank c = false) :
    ∃ ws w, words t = ws ++ [w] ∧ w.getLast? = some c := by
  induction t using cut_induction isBlank with
  | hpiece w hw =>
    have hne : w ≠ [] := by
      rintro rfl
      simp at hlast
    exact ⟨[], w, words_of_isWord ⟨hne, hw⟩, hlast⟩
  | hcut w b r hw hb ih =>
    rw [List.getLast?_append_of_ne_nil _ (List.cons_ne_nil b r)] at hlast
    cases r with
    | nil =>
      obtain rfl : b = c := by simpa using hlast
      rw [hb] at hc
      exact absurd hc.symm Bool.false_ne_true
    | cons d r =>
      obtain ⟨ws, v, hwords, hv⟩ := ih (by simpa using hlast)
      exact ⟨words w ++ ws, v, by rw [words_append_cons hb, hwords, List.append_assoc], hv⟩

theorem head?_collapseBlanks (hhead : t.head? = some c) (hc : isBlank c = false) :
    (collapseBlanks t).head? = some c := by
  obtain ⟨w, ws, hwords, hw⟩ := exists_words_eq_cons hhead hc
  rw [collapseBlanks, hwords, head?_intercalate_cons _ ws, hw]
  rintro rfl
  simp at hw

theorem getLast?_collapseBlanks (hlast : t.getLast? = some c) (hc : isBlank c = false) :
    (collapseBlanks t).getLast? = some c := by
  obtain ⟨ws, w, hwords, hw⟩ := exists_words_eq_concat hlast hc
  rw [collapseBlanks, hwords, getLast?_intercalate_concat _ ws, hw]
  rintro rfl
  simp at hw

end OpeningHours.Text
