import Mathlib.Data.List.Basic
import OpeningHours.Text.Remainder

/-!
# Texts that say nothing

A text of characters that are fillers by themselves leaves no note (**`remainder?_eq_none`**). The
removal of a filler of one character is a filter (`remove_singleton`), and no removal adds
characters (`remove_subset`), so nothing of such a text outlives all removals.
-/

namespace OpeningHours.Text

theorem flatten_extendHead (c : Char) {pieces : List Text} (hne : pieces ≠ []) :
    (extendHead c pieces).flatten = c :: pieces.flatten := by
  obtain ⟨p, ps, rfl⟩ := List.exists_cons_of_ne_nil hne
  rfl

theorem flatten_splitFrom_subset (w : Text) (k : Nat) (t : Text) :
    (splitFrom w k t).flatten ⊆ t := by
  induction t generalizing k with
  | nil => simp [splitFrom]
  | cons c r ih =>
    cases k with
    | succ k => exact fun d hd => List.mem_cons_of_mem c (ih k hd)
    | zero =>
      rw [splitFrom]
      split
      · exact fun d hd => List.mem_cons_of_mem c (ih _ hd)
      · rw [flatten_extendHead c (splitFrom_ne_nil w 0 r)]
        exact List.cons_subset_cons c (ih 0)

/-- A removal adds no characters. -/
theorem remove_subset (w t : Text) : remove w t ⊆ t :=
  flatten_splitFrom_subset w 0 t

theorem remove_singleton (c : Char) (t : Text) : remove [c] t = t.filter (· != c) := by
  rw [remove, splitOn]
  induction t with
  | nil => rfl
  | cons d r ih =>
    by_cases hd : d = c
    · subst hd
      have hsplit : splitFrom [d] 0 (d :: r) = [] :: splitFrom [d] 0 r := by
        simp [splitFrom]
      rw [hsplit, List.flatten_cons, ih]
      simp
    · have hsplit : splitFrom [c] 0 (d :: r) = extendHead d (splitFrom [c] 0 r) := by
        simp [splitFrom, Ne.symm hd]
      rw [hsplit, flatten_extendHead d (splitFrom_ne_nil _ 0 r), ih]
      simp [hd]

/-- What outlives the removal of words is none of them. -/
theorem mem_foldl_remove {ws : List Text} {t : Text} {c : Char}
    (hc : c ∈ ws.foldl (fun rest w => remove w rest) t) : c ∈ t ∧ [c] ∉ ws := by
  induction ws generalizing t with
  | nil => exact ⟨hc, List.not_mem_nil⟩
  | cons w ws ih =>
    obtain ⟨ht, hws⟩ := ih hc
    refine ⟨remove_subset w t ht, ?_⟩
    intro hmem
    rcases List.mem_cons.1 hmem with rfl | hmem
    · change c ∈ remove [c] t at ht
      rw [remove_singleton] at ht
      simp at ht
    · exact hws hmem

/-- Whether each character of the text is a filler by itself. -/
def isSilent (t : Text) : Bool :=
  t.all fun c => fillers.contains [c]

theorem isSilent_of_subset {t u : Text} (hu : isSilent u = true) (ht : t ⊆ u) :
    isSilent t = true :=
  List.all_eq_true.2 fun c hc => List.all_eq_true.1 hu c (ht hc)

/-- **A text of fillers leaves no note.** -/
theorem remainder?_eq_none {t : Text} (ht : isSilent t = true) : remainder? t = none := by
  have hnil : withoutFillers t = [] := by
    rw [List.eq_nil_iff_forall_not_mem]
    intro c hc
    obtain ⟨hmem, hnot⟩ := mem_foldl_remove hc
    have hc := List.all_eq_true.1 ht c hmem
    exact hnot (by simpa using hc)
  rw [remainder?, hnil]
  rfl

end OpeningHours.Text
