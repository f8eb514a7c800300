import Mathlib.Data.List.Basic
import OpeningHours.Proofs.Text.Pieces
import OpeningHours.Proofs.Text.Silence

/-!
# Replacing a word

What is put in the place of a word can be read off the result: the pieces around the word stay, so
the length of the result gives the length of what was put in, and behind the first piece it stands
in full (**`replace_injective`**). No assumption is made on the characters around the word. A text
without the word is left as it is (`replace_of_not_occurs`).

A removal is done on both sides of a character that is not in the word
(**`remove_append_cons`**).
-/

namespace OpeningHours.Text

variable {c : Char} {s t w : Text}

/-! ## One step of a splitting -/

theorem splitOn_word_append (hw : w ≠ []) (t : Text) : splitOn w (w ++ t) = [] :: splitOn w t := by
  obtain ⟨d, v, rfl⟩ := List.exists_cons_of_ne_nil hw
  have hpre : d :: v ≠ [] ∧ (d :: v).isPrefixOf (d :: (v ++ t)) = true :=
    ⟨hw, List.isPrefixOf_iff_prefix.2 ⟨t, rfl⟩⟩
  rw [splitOn, List.cons_append, splitFrom, if_pos hpre, splitFrom_drop, List.length_cons,
    Nat.add_sub_cancel, List.drop_left, splitOn]

theorem splitOn_cons_of_not_leading (h : ¬ (w ≠ [] ∧ w <+: c :: t)) :
    splitOn w (c :: t) = extendHead c (splitOn w t) := by
  rw [← List.isPrefixOf_iff_prefix] at h
  rw [splitOn, splitFrom, if_neg h, splitOn]

theorem splitOn_ne_nil (w t : Text) : splitOn w t ≠ [] :=
  splitFrom_ne_nil w 0 t

/-- **A word splits a text that it occurs in**, and no other. -/
theorem one_lt_length_splitOn_iff (hw : w ≠ []) : 1 < (splitOn w t).length ↔ w <:+: t := by
  constructor
  · intro hlength
    have htext := intercalate_splitOn w t
    match hpieces : splitOn w t with
    | [] => exact absurd hpieces (splitOn_ne_nil w t)
    | [p] => simp [hpieces] at hlength
    | p :: q :: ps =>
      rw [hpieces, List.intercalate_cons_cons] at htext
      exact ⟨p, w.intercalate (q :: ps), htext⟩
  · intro hinfix
    induction t with
    | nil => exact absurd (List.infix_nil.1 hinfix) hw
    | cons c t ih =>
      by_cases hpre : w <+: c :: t
      · obtain ⟨r, hr⟩ := hpre
        rw [← hr, splitOn_word_append hw, List.length_cons]
        have := List.length_pos_of_ne_nil (splitOn_ne_nil w r)
        omega
      · rw [splitOn_cons_of_not_leading fun h => hpre h.2, length_extendHead c (splitOn_ne_nil w t)]
        exact ih ((List.infix_cons_iff.1 hinfix).resolve_left hpre)

/-! ## What is put in -/

/-- A text with pieces put between is longer than the pieces by what is put in. -/
theorem length_intercalate_cons (v p : Text) (ps : List Text) :
    (v.intercalate (p :: ps)).length = (p :: ps).flatten.length + ps.length * v.length := by
  induction ps generalizing p with
  | nil => simp
  | cons q ps ih =>
    rw [List.intercalate_cons_cons, List.length_append, List.length_append, ih q,
      List.flatten_cons (l := p), List.length_append, List.length_cons, Nat.succ_mul]
    omega

/-- **What stands between the pieces can be read off the whole**, if there is more than one piece. -/
theorem intercalate_injective {pieces : List Text} (hpieces : 1 < pieces.length) {v v' : Text}
    (h : v.intercalate pieces = v'.intercalate pieces) : v = v' := by
  match pieces, hpieces with
  | p :: q :: ps, _ =>
    have hlength : v.length = v'.length := by
      have hsame := congrArg List.length h
      rw [length_intercalate_cons, length_intercalate_cons, Nat.add_left_cancel_iff] at hsame
      exact Nat.eq_of_mul_eq_mul_left (by simp) hsame
    rw [List.intercalate_cons_cons, List.intercalate_cons_cons, List.append_assoc,
      List.append_assoc, List.append_cancel_left_eq] at h
    exact List.append_inj_left h hlength

/-- **What replaces a word can be read off the result**, if the word occurs. -/
theorem replace_injective (hw : w ≠ []) (ht : w <:+: t) {v v' : Text}
    (h : replace w v t = replace w v' t) : v = v' :=
  intercalate_injective ((one_lt_length_splitOn_iff hw).2 ht) h

theorem replace_of_not_occurs (hw : w ≠ []) (ht : ¬ w <:+: t) (v : Text) : replace w v t = t := by
  have htext := intercalate_splitOn w t
  rw [← one_lt_length_splitOn_iff hw] at ht
  rw [replace]
  match hpieces : splitOn w t with
  | [] => exact absurd hpieces (splitOn_ne_nil w t)
  | [p] => rwa [hpieces] at htext
  | p :: q :: ps => simp [hpieces] at ht

/-! ## Removing -/

theorem remove_word_append (hw : w ≠ []) (t : Text) : remove w (w ++ t) = remove w t := by
  rw [remove, splitOn_word_append hw]
  rfl

theorem remove_cons_of_not_leading (h : ¬ (w ≠ [] ∧ w <+: c :: t)) :
    remove w (c :: t) = c :: remove w t := by
  rw [remove, splitOn_cons_of_not_leading h, flatten_extendHead c (splitOn_ne_nil w t), remove]

/-- A word in front of a text ends in front of each character that it does not have. -/
theorem prefix_of_prefix_append_cons (hc : c ∉ w) (h : w <+: s ++ c :: t) : w <+: s := by
  rcases List.prefix_or_prefix_of_prefix h (List.prefix_append s (c :: t)) with hw | ⟨v, rfl⟩
  · exact hw
  · rw [List.prefix_append_right_inj] at h
    cases v with
    | nil => simp
    | cons d v =>
      obtain rfl : d = c := (List.cons_prefix_cons.1 h).1
      exact absurd (by simp) hc

/-- **A removal is done on both sides of a character that is not in the word.** The induction is on
the length of the first text, since a removed word takes several characters off it. -/
theorem remove_append_cons (hc : c ∉ w) (s t : Text) :
    remove w (s ++ c :: t) = remove w s ++ c :: remove w t := by
  induction hn : s.length using Nat.strongRecOn generalizing s with
  | ind n ih =>
    subst hn
    cases s with
    | nil =>
      refine remove_cons_of_not_leading fun ⟨hw, hpre⟩ => hw ?_
      exact List.prefix_nil.1 (prefix_of_prefix_append_cons (s := []) hc hpre)
    | cons d s =>
      by_cases hpre : w ≠ [] ∧ w <+: d :: s
      · obtain ⟨hw, r, hr⟩ := hpre
        have hlt : r.length < (d :: s).length := by
          have := List.length_pos_of_ne_nil hw
          rw [← hr, List.length_append]
          omega
        rw [← hr, List.append_assoc, remove_word_append hw, remove_word_append hw, ih _ hlt r rfl]
      · have hnot : ¬ (w ≠ [] ∧ w <+: d :: (s ++ c :: t)) := fun ⟨hw, h⟩ =>
          hpre ⟨hw, prefix_of_prefix_append_cons hc h⟩
        rw [List.cons_append, remove_cons_of_not_leading hnot, remove_cons_of_not_leading hpre,
          ih s.length (by simp) s rfl, List.cons_append]

end OpeningHours.Text
