import OpeningHours.Proofs.Pattern.Spelling
import OpeningHours.Proofs.Text.Silence

/-!
# What a text consists of

A text is read by blanking out words until fillers are left. To say that nothing was passed over on
the way, the text is described by what it is put together from: fillers, and words of a given kind,
which are taken away one by one and leave a space each.

* `ConsistsOf`: the text consists of fillers and words of a kind;
* **`ConsistsOf.of_extract`**: if what an extraction leaves consists of such words, and it reads
  nothing but such words, then so does the text;
* **`ConsistsOf.not_mem`**: a character that is in no filler and in no word of the kind is not in
  the text.
-/

namespace OpeningHours

variable {isWord : Text → Prop} {c : Char} {s t u w : Text}

/-- The text consists of fillers and of words of the kind. Taking away a word leaves a space. -/
inductive ConsistsOf (isWord : Text → Prop) : Text → Prop
  | fillers {t : Text} (h : Text.isAllBlank (Text.withoutFillers t) = true) : ConsistsOf isWord t
  | word {s w r : Text} (hw : isWord w) (h : ConsistsOf isWord (s ++ ' ' :: r)) :
    ConsistsOf isWord (s ++ (w ++ r))

namespace Text

/-! ## Characters that outlive the removal of fillers -/

theorem mem_flatten_of_mem_intercalate (hw : c ∉ w) {pieces : List Text}
    (hc : c ∈ w.intercalate pieces) : c ∈ pieces.flatten := by
  induction pieces with
  | nil => exact hc
  | cons p ps ih =>
    cases ps with
    | nil =>
      rw [List.intercalate_singleton] at hc
      exact List.mem_append_left _ hc
    | cons q qs =>
      rw [List.intercalate_cons_cons, List.mem_append, List.mem_append] at hc
      rw [List.flatten_cons, List.mem_append]
      rcases hc with (hp | hfiller) | hrest
      · exact .inl hp
      · exact absurd hfiller hw
      · exact .inr (ih hrest)

/-- A removal takes away no character that the word does not have. -/
theorem mem_remove (hc : c ∈ t) (hw : c ∉ w) : c ∈ remove w t := by
  rw [← intercalate_splitOn w t] at hc
  exact mem_flatten_of_mem_intercalate hw hc

theorem mem_foldl_remove_of_not_mem {ws : List Text} (hc : c ∈ t) (hws : ∀ w ∈ ws, c ∉ w) :
    c ∈ ws.foldl (fun rest w => remove w rest) t := by
  induction ws generalizing t with
  | nil => exact hc
  | cons w ws ih =>
    have hleft : c ∈ remove w t := mem_remove hc (hws w List.mem_cons_self)
    exact ih hleft fun v hv => hws v (List.mem_cons_of_mem w hv)

/-- Whether the character is neither blank nor in a filler. -/
def isTelling (c : Char) : Bool :=
  !isBlank c && fillers.all fun w => !w.contains c

theorem not_isAllBlank_withoutFillers (hc : c ∈ t) (htelling : isTelling c = true) :
    isAllBlank (withoutFillers t) = false := by
  obtain ⟨hblank, hfillers⟩ := Bool.and_eq_true_iff.1 htelling
  have hws : ∀ w ∈ fillers, c ∉ w := by
    intro w hw hmem
    have hnot := List.all_eq_true.1 hfillers w hw
    rw [Bool.not_eq_true', List.contains_eq_mem, decide_eq_false_iff_not] at hnot
    exact hnot hmem
  have hleft : c ∈ withoutFillers t := mem_foldl_remove_of_not_mem hc hws
  rw [isAllBlank, List.all_eq_false]
  refine ⟨c, hleft, ?_⟩
  rw [Bool.not_eq_true'] at hblank
  rw [hblank]
  exact Bool.false_ne_true

end Text

namespace ConsistsOf

open Pattern

variable {p : Pattern} {α : Type} {read : Option Char → Hit → Option α}

theorem of_remainder? (h : Text.remainder? t = none) : ConsistsOf isWord t := by
  rw [Text.remainder?] at h
  split at h
  · next hblank => exact .fillers hblank
  · exact absurd h (by simp)

/-- **What no filler and no word has is not in the text.** -/
theorem not_mem (ht : ConsistsOf isWord t) (htelling : Text.isTelling c = true)
    (hword : ∀ w, isWord w → c ∉ w) : c ∉ t := by
  induction ht with
  | fillers h =>
    intro hc
    rw [Text.not_isAllBlank_withoutFillers hc htelling] at h
    exact Bool.false_ne_true h
  | @word s w r hw h ih =>
    intro hc
    refine ih ?_
    rw [List.mem_append, List.mem_append] at hc
    rw [List.mem_append, List.mem_cons]
    rcases hc with hs | hc | hr
    · exact .inl hs
    · exact absurd hc (hword w hw)
    · exact .inr (.inr hr)

theorem of_flatMap_leavePiece {pieces : List Piece}
    (hpieces : ∀ piece ∈ pieces, (readPiece read piece).isSome = true → isWord piece.text)
    (hleft : ConsistsOf isWord (s ++ pieces.flatMap (leavePiece read))) :
    ConsistsOf isWord (s ++ pieces.flatMap Piece.text) := by
  induction pieces generalizing s with
  | nil => exact hleft
  | cons piece pieces ih =>
    have hlater : ∀ q ∈ pieces, (readPiece read q).isSome = true → isWord q.text :=
      fun q hq => hpieces q (List.mem_cons_of_mem piece hq)
    rw [List.flatMap_cons, leavePiece] at hleft
    rw [List.flatMap_cons]
    split at hleft
    · next hread =>
      have hspace : ConsistsOf isWord ((s ++ [' ']) ++ pieces.flatMap Piece.text) := by
        refine ih hlater ?_
        rw [List.append_assoc]
        exact hleft
      rw [List.append_assoc] at hspace
      exact .word (hpieces piece List.mem_cons_self hread) hspace
    · rw [← List.append_assoc] at hleft ⊢
      exact ih hlater hleft

/-- **A text consists of the words that an extraction reads and of what it leaves.** -/
theorem of_extract (hp : p.isPlain = true)
    (hread : ∀ before h a, p.Spells h → read before h = some a →
      a ∈ (p.extract read t).1 → isWord h.taken)
    (hleft : ConsistsOf isWord (p.extract read t).2) : ConsistsOf isWord t := by
  have hpieces : ∀ piece ∈ p.scan t, (readPiece read piece).isSome = true →
      isWord piece.text := by
    intro piece hpiece hsome
    obtain ⟨a, ha⟩ := Option.isSome_iff_exists.1 hsome
    have hmem : a ∈ (p.extract read t).1 := List.mem_filterMap.2 ⟨piece, hpiece, ha⟩
    cases piece with
    | loose c => exact absurd hsome Bool.false_ne_true
    | hit before h =>
      obtain ⟨-, hhit⟩ := mem_hits_of_mem_scanFrom hpiece
      exact hread before h a (spells_of_mem_hits hp hhit) ha hmem
  have htext := of_flatMap_leavePiece (s := []) hpieces hleft
  rw [flatMap_text_scan] at htext
  exact htext

theorem of_blankOut (hp : p.isPlain = true) (hword : ∀ h, p.Spells h → isWord h.taken)
    (hleft : ConsistsOf isWord (p.blankOut t)) : ConsistsOf isWord t :=
  of_extract hp (fun _ h _ hh _ _ => hword h hh) hleft

end ConsistsOf

end OpeningHours
