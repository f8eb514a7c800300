import Mathlib.Data.List.Basic
import OpeningHours.Proofs.Text.NormalForm
import OpeningHours.Proofs.Text.Pieces

/-!
# A parenthetical at the end of a text

A word with a parenthetical behind it, and no brackets inside the parenthetical. What is inside may
change in the normal form, but no bracket comes in, and none of the separators inside cuts the text.

* `NoBrackets`: no bracket of any kind opens or closes in the text;
* **`exists_normalize_parenthetical`**: the normal form is the word with a parenthetical behind it;
* **`splitTopLevel_parenthetical`**: the text is one piece;
* **`leadingParenthetical?_cons`**: the parenthetical is read back.
-/

namespace OpeningHours.Text

variable {isSep : Char → Bool} {s w x y z : Text} {c : Char}

/-- No bracket of any kind opens or closes in the text. -/
def NoBrackets (t : Text) : Prop :=
  ∀ c ∈ t, isOpening c = false ∧ isClosing c = false

instance (t : Text) : Decidable t.NoBrackets :=
  List.decidableBAll _ t

theorem NoBrackets.append (hy : NoBrackets y) (hz : NoBrackets z) : NoBrackets (y ++ z) :=
  fun c hc => (List.mem_append.1 hc).elim (hy c) (hz c)

/-- A text without brackets whose characters come from another one, or are spaces. -/
theorem NoBrackets.of_mem (hy : NoBrackets y) (hz : ∀ c ∈ z, c = ' ' ∨ c ∈ y) : NoBrackets z := by
  intro c hc
  rcases hz c hc with rfl | hmem
  · decide
  · exact hy c hmem

/-! ## The normal form -/

/-- The normal form looks at the half-width forms alone. -/
theorem normalize_map_halfWidth (t : Text) : normalize (t.map halfWidth) = normalize t := by
  have htwice : (t.map halfWidth).map halfWidth = t.map halfWidth := by
    rw [List.map_map]
    exact List.map_congr_left fun c _ => halfWidth_halfWidth c
  rw [normalize_eq, normalize_eq, htwice]

/-- **A character of a word is in the normal form** if its text has it in half-width form. -/
theorem mem_normalize (hword : isWordPart c = true) (hmark : isListMark c = false)
    (hc : c ∈ x.map halfWidth) : c ∈ normalize x := by
  obtain ⟨s, r, hsplit⟩ := List.append_of_mem hc
  have hstretch : [c] <:+: x.map halfWidth := ⟨s, r, by rw [hsplit]; simp⟩
  have hinfix : [c] <:+: normalize (x.map halfWidth) :=
    infix_normalize (List.cons_ne_nil c []) (by simpa using hword) (by simpa using hmark) hstretch
  rw [normalize_map_halfWidth] at hinfix
  exact hinfix.subset (List.mem_singleton_self c)

/-- The brackets of all kinds. -/
def brackets : List Char :=
  ['(', '[', '「', '【', ')', ']', '」', '】']

theorem mem_brackets (h : ¬ (isOpening c = false ∧ isClosing c = false)) : c ∈ brackets := by
  simp only [isOpening, isClosing, Bool.or_eq_false_iff, beq_eq_false_iff_ne] at h
  simp only [brackets, List.mem_cons, List.not_mem_nil, or_false]
  tauto

/-- Brackets are never lost, so a normal form without brackets comes from a text without any. -/
theorem noBrackets_map_halfWidth (hx : NoBrackets (normalize x)) :
    NoBrackets (x.map halfWidth) := by
  intro c hc
  by_contra hbracket
  have hall : (brackets.all fun d => isWordPart d && !isListMark d) = true := by decide
  have hkept := List.all_eq_true.1 hall c (mem_brackets hbracket)
  simp only [Bool.and_eq_true, Bool.not_eq_true'] at hkept
  obtain ⟨hword, hmark⟩ := hkept
  exact hbracket (hx c (mem_normalize hword hmark hc))

/-- **The normal form of a word with a parenthetical behind it** is the word with a parenthetical
behind it, and no bracket comes in. -/
theorem exists_normalize_parenthetical (hw : ∀ c ∈ w, isWordPart c = true)
    (hx : NoBrackets (normalize x)) :
    ∃ y, NoBrackets y ∧ normalize (w ++ '(' :: (x ++ [')'])) = w ++ '(' :: (y ++ [')']) := by
  have hfront : ∀ c ∈ w ++ ['('], isWordPart c = true := by
    intro c hc
    rcases List.mem_append.1 hc with hc | hc
    · exact hw c hc
    · rw [List.mem_singleton.1 hc]
      decide
  have hopened := normalize_word_append (w := w ++ ['(']) (by simp) hfront x
  obtain ⟨gap, hgap, hclosed⟩ := normalize_append_cons (c := ')') (by decide) (by decide)
    (w ++ ['('] ++ x) []
  have hend : normalize [')'] = [')'] := by decide
  rw [hopened, hend] at hclosed
  refine ⟨tighten (w ++ ['(']).getLast? (collapse none (x.map halfWidth)) ++ gap.toList, ?_, ?_⟩
  · refine NoBrackets.append ((noBrackets_map_halfWidth hx).of_mem fun c hc => ?_) fun c hc => ?_
    · exact mem_collapse (by simp) (List.Subset.refl _) ((tighten_sublist _ _).subset hc)
    · rcases eq_of_isGap (hgap c (Option.mem_toList.1 hc)) with rfl | rfl <;> decide
  · simpa using hclosed

/-! ## Cutting -/

/-- Inside a bracket nothing is cut. -/
theorem cutTopLevel_inside (hy : NoBrackets y) (depth : Nat) :
    cutTopLevel isSep (depth + 1) (y ++ [')']) = [y ++ [')']] := by
  have hinside (c : Char) : cutsAt isSep (depth + 1) c = false := by simp [cutsAt]
  induction y with
  | nil =>
    rw [List.nil_append, cutTopLevel, hinside]
    rfl
  | cons c y ih =>
    obtain ⟨⟨hopen, hclose⟩, hy⟩ := List.forall_mem_cons.1 hy
    have hdepth : depthAfter (depth + 1) c = depth + 1 := by simp [depthAfter, hopen, hclose]
    rw [List.cons_append, cutTopLevel, hinside, hdepth, ih hy]
    rfl

/-- A parenthetical is not cut, nor is what stands in front of it without separators. -/
theorem cutTopLevel_parenthetical (hs : ∀ c ∈ s, isInner isSep c = true) (hy : NoBrackets y) :
    cutTopLevel isSep 0 (s ++ '(' :: (y ++ [')'])) = [s ++ '(' :: (y ++ [')'])] := by
  induction s with
  | nil =>
    have hopens : cutsAt isSep 0 '(' = false := by simp [cutsAt, isOpening]
    have hdepth : depthAfter 0 '(' = 0 + 1 := rfl
    rw [List.nil_append, cutTopLevel, hopens, hdepth, cutTopLevel_inside hy]
    rfl
  | cons c s ih =>
    obtain ⟨hc, hs⟩ := List.forall_mem_cons.1 hs
    simp only [isInner, Bool.and_eq_true, Bool.not_eq_true'] at hc
    obtain ⟨⟨hsep, hopen⟩, hclose⟩ := hc
    have hcut : cutsAt isSep 0 c = false := by simp [cutsAt, hsep]
    have hdepth : depthAfter 0 c = 0 := by simp [depthAfter, hopen, hclose]
    rw [List.cons_append, cutTopLevel, hcut, hdepth, ih hs]
    rfl

/-- **A text with a parenthetical at its end is one piece**, whatever separators it holds inside. -/
theorem splitTopLevel_parenthetical (hs : ∀ c ∈ s, isInner isSep c = true) (hy : NoBrackets y) :
    splitTopLevel isSep (s ++ '(' :: (y ++ [')'])) = [s ++ '(' :: (y ++ [')'])] := by
  have hblank : isBlank '(' = false := by decide
  rw [splitTopLevel, cutTopLevel_parenthetical hs hy]
  simp [isAllBlank, hblank]

/-! ## Reading back -/

theorem closeParenthesis?_append (hz : NoBrackets z) (r : Text) :
    closeParenthesis? 0 (z ++ ')' :: r) = some (z, r) := by
  induction z with
  | nil => rfl
  | cons c z ih =>
    obtain ⟨⟨hopen, hclose⟩, hz⟩ := List.forall_mem_cons.1 hz
    have hne : c ≠ '(' := by
      rintro rfl
      exact absurd hopen (by decide)
    have hne' : c ≠ ')' := by
      rintro rfl
      exact absurd hclose (by decide)
    rw [List.cons_append, closeParenthesis?, ih hz]
    · rfl
    · exact hne
    · exact fun _ => hne'
    · exact fun _ _ => hne'

/-- **A parenthetical without brackets inside is read back.** -/
theorem leadingParenthetical?_cons (hz : NoBrackets z) (r : Text) :
    leadingParenthetical? ('(' :: (z ++ ')' :: r)) = some (z, r) := by
  have htrim : trimStart ('(' :: (z ++ ')' :: r)) = '(' :: (z ++ ')' :: r) :=
    List.dropWhile_cons_of_neg (by decide)
  rw [leadingParenthetical?, htrim]
  exact closeParenthesis?_append hz r

end OpeningHours.Text
