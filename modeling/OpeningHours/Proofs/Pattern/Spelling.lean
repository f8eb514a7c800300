import Mathlib.Data.List.Infix
import OpeningHours.Proofs.Pattern.Continued

/-!
# Hits out of their text

Most patterns ask nothing of what stands around a hit. Their hits can be looked at on their own: a
hit in one text is a hit wherever the same stretch stands. So a text in which some words have been
blanked out holds no hit that the text itself does not hold, unless the hit takes one of the new
spaces.

* `isPlain`, `Spells`: such patterns, and the hits that are all of their text;
* **`withRest_mem_hits`**: a hit of a plain pattern is one in any other surroundings;
* `occursIn_iff_spells`: a plain pattern occurs where a stretch of the text is spelled by it;
* `Thinned`, **`Thinned.occursIn`**: what has no space is not made by blanking out words;
* **`occursIn_blankOut`**: a pattern whose hits are blanked out has none in what is left;
* `keepsNothing`, `parts_eq_nil`: patterns whose hits have no parts.
-/

namespace OpeningHours

/-- The hit with another rest behind it. -/
def Hit.withRest (r : Text) (h : Hit) : Hit :=
  { h with rest := r }

namespace Pattern

variable {p q : Pattern} {before : Option Char} {c : Char} {r s t u v w x y : Text} {h : Hit}
  {α : Type} {read : Option Char → Hit → Option α}

/-- Whether the pattern asks nothing of what stands around a hit. -/
def isPlain (p : Pattern) : Bool :=
  p.everyLeaf fun | .atStart => false | .atEnd => false | .atWordEdge => false | _ => true

/-- The hit, whatever its rest, is one of the pattern in a text of its own. -/
def Spells (p : Pattern) (h : Hit) : Prop :=
  h.withRest [] ∈ p.hits none h.taken

/-! ## Other surroundings -/

theorem withRest_mem_hitsMany
    (hp : ∀ {before t h} (before' : Option Char) (r : Text), h ∈ p.hits before t →
      h.withRest r ∈ p.hits before' (h.taken ++ r)) {n : Nat}
    (hh : h ∈ hitsMany p.hits n before t) (before' : Option Char) (r : Text) :
    h.withRest r ∈ hitsMany p.hits n before' (h.taken ++ r) := by
  induction n generalizing before before' t h r with
  | zero =>
    obtain rfl : h = .nothing t := by simpa [hitsMany] using hh
    exact List.mem_singleton_self _
  | succ n ih =>
    rcases mem_hitsMany_succ.1 hh with ⟨g, hg, hne, k, hk, rfl⟩ | rfl
    · have hfirst := hp before' (k.taken ++ r) hg
      rw [← List.append_assoc] at hfirst
      exact mem_hitsMany_succ.2 (.inl ⟨_, hfirst, hne, k.withRest r, ih hk _ r, rfl⟩)
    · exact mem_hitsMany_succ.2 (.inr rfl)

/-- **A hit of a plain pattern is a hit in any other surroundings.** -/
theorem withRest_mem_hits (hp : p.isPlain = true) (hh : h ∈ p.hits before t)
    (before' : Option Char) (r : Text) : h.withRest r ∈ p.hits before' (h.taken ++ r) := by
  induction p generalizing before before' t h r with
  | empty =>
    obtain rfl : h = .nothing t := by simpa [hits] using hh
    exact List.mem_singleton_self _
  | one accept =>
    obtain ⟨c, u, rfl, hc, rfl⟩ := mem_hits_one.1 hh
    exact mem_hits_one.2 ⟨c, r, rfl, hc, rfl⟩
  | seq p q ihp ihq =>
    obtain ⟨hp, hq⟩ : p.isPlain = true ∧ q.isPlain = true := Bool.and_eq_true_iff.1 hp
    obtain ⟨g, hg, k, hk, rfl⟩ := mem_hits_seq.1 hh
    have hfirst := ihp hp hg before' (k.taken ++ r)
    rw [← List.append_assoc] at hfirst
    exact mem_hits_seq.2 ⟨_, hfirst, k.withRest r, ihq hq hk _ r, rfl⟩
  | alt p q ihp ihq =>
    obtain ⟨hp, hq⟩ : p.isPlain = true ∧ q.isPlain = true := Bool.and_eq_true_iff.1 hp
    rw [hits, List.mem_append] at hh
    rw [hits, List.mem_append]
    exact hh.imp (fun hh => ihp hp hh before' r) fun hh => ihq hq hh before' r
  | star p ih =>
    -- A bound beyond both texts changes nothing, and then the bounds are the same.
    have hlonger : t.length ≤ max t.length (h.taken ++ r).length := Nat.le_max_left _ _
    have hlonger' : (h.taken ++ r).length ≤ max t.length (h.taken ++ r).length :=
      Nat.le_max_right _ _
    rw [← hitsMany_eq_of_le p before hlonger] at hh
    rw [← hitsMany_eq_of_le p before' hlonger']
    exact withRest_mem_hitsMany (fun b r hh => ih hp hh b r) hh before' r
  | keep slot p ih =>
    obtain ⟨g, hg, rfl⟩ := mem_hits_keep.1 hh
    exact mem_hits_keep.2 ⟨g.withRest r, ih hp hg before' r, rfl⟩
  | atStart => exact absurd hp (by decide)
  | atEnd => exact absurd hp (by decide)
  | atWordEdge => exact absurd hp (by decide)

theorem spells_of_mem_hits (hp : p.isPlain = true) (hh : h ∈ p.hits before t) : p.Spells h := by
  have hmem := withRest_mem_hits hp hh none []
  rw [List.append_nil] at hmem
  exact hmem

theorem Spells.not_mem (hh : p.Spells h) (hc : p.refuses c = true) : c ∉ h.taken :=
  not_mem_taken (h := h.withRest []) hc hh

/-- A plain pattern occurs in a text if it spells a stretch of it. -/
theorem occursIn_iff_spells (hp : p.isPlain = true) :
    p.occursIn t = true ↔ ∃ h, p.Spells h ∧ h.taken ≠ [] ∧ h.taken <:+: t := by
  rw [occursIn_iff]
  constructor
  · rintro ⟨s, u, rfl, h, hh, hne⟩
    refine ⟨h, spells_of_mem_hits hp hh, hne, s, h.rest, ?_⟩
    rw [← taken_append_rest p _ _ hh, List.append_assoc]
  · rintro ⟨h, hh, hne, s, r, rfl⟩
    exact ⟨s, h.taken ++ r, List.append_assoc s h.taken r, _,
      withRest_mem_hits hp hh s.getLast? r, hne⟩

theorem occursIn_of_hit_mem_scan (hp : p.isPlain = true) (hh : .hit before h ∈ p.scan t) :
    p.occursIn t = true := by
  obtain ⟨hne, hmem⟩ := mem_hits_of_mem_scanFrom hh
  obtain ⟨s, ht, -⟩ := exists_front_of_mem_scan hh
  have hstretch : h.taken <:+: t := ⟨s, h.rest, by rw [ht, List.append_assoc]⟩
  exact (occursIn_iff_spells hp).2 ⟨h, spells_of_mem_hits hp hmem, hne, hstretch⟩

/-! ## What blanking out cannot make -/

/-- A word without the character lies on one side of it. -/
theorem infix_append_cons (hc : c ∉ w) (hw : w <:+: x ++ c :: y) : w <:+: x ∨ w <:+: y := by
  obtain ⟨s, r, h⟩ := hw
  rw [List.append_assoc] at h
  rcases List.append_eq_append_iff.1 h with ⟨u, hx, hu⟩ | ⟨u, hs, hu⟩
  · -- The word starts in front of the character, and ends there.
    rcases List.append_eq_append_iff.1 hu with ⟨v, hv, -⟩ | ⟨v, hv, hcy⟩
    · left
      rw [hx, hv]
      exact ⟨s, v, List.append_assoc s w v⟩
    · cases v with
      | nil =>
        left
        rw [hx, ← List.append_nil u, ← hv]
        exact ⟨s, [], by simp⟩
      | cons d v =>
        obtain ⟨rfl, -⟩ := List.cons.inj hcy
        exact absurd (by rw [hv]; simp) hc
  · cases u with
    | nil =>
      -- The word starts at the character, so it is empty.
      left
      cases w with
      | nil => exact List.nil_infix
      | cons d w =>
        obtain ⟨rfl, -⟩ := List.cons.inj hu
        exact absurd List.mem_cons_self hc
    | cons d u =>
      right
      obtain ⟨-, rfl⟩ := List.cons.inj hu
      exact ⟨u, r, List.append_assoc u w r⟩

theorem infix_of_infix_leavePiece (hspace : ' ' ∉ w) (pieces : List Piece)
    (hw : w <:+: x ++ pieces.flatMap (leavePiece read)) :
    w <:+: x ++ pieces.flatMap Piece.text := by
  induction pieces generalizing x with
  | nil => exact hw
  | cons piece pieces ih =>
    rw [List.flatMap_cons] at hw ⊢
    rw [leavePiece] at hw
    split at hw
    · rcases infix_append_cons hspace hw with hw | hw
      · exact hw.trans (List.infix_append' [] x _)
      · have hbehind : w <:+: [] ++ pieces.flatMap Piece.text := ih hw
        exact hbehind.trans ⟨x ++ piece.text, [], by simp⟩
    · rw [← List.append_assoc] at hw ⊢
      exact ih hw

/-- Every stretch without a space of the second text stands in the first. So it is where words of
the first have been blanked out. -/
def Thinned (t u : Text) : Prop :=
  ∀ w, ' ' ∉ w → w <:+: u → w <:+: t

theorem Thinned.trans (htu : Thinned t u) (huv : Thinned u v) : Thinned t v :=
  fun w hw hstretch => htu w hw (huv w hw hstretch)

theorem thinned_of_stretch (h : u <:+: t) : Thinned t u :=
  fun _ _ hstretch => hstretch.trans h

theorem Thinned.subset {alphabet : List Char} (htu : Thinned t u) (hspace : ' ' ∈ alphabet)
    (ht : t ⊆ alphabet) : u ⊆ alphabet := by
  intro c hc
  by_cases hblank : c = ' '
  · rwa [hblank]
  · have hstretch : [c] <:+: t :=
      htu [c] (by simpa using Ne.symm hblank) ((List.singleton_infix_iff c u).2 hc)
    exact ht ((List.singleton_infix_iff c t).1 hstretch)

theorem thinned_extract (p : Pattern) (read : Option Char → Hit → Option α) (t : Text) :
    Thinned t (p.extract read t).2 := by
  intro w hspace hw
  have htext := infix_of_infix_leavePiece (x := []) hspace (p.scan t) hw
  rw [flatMap_text_scan] at htext
  exact htext

theorem thinned_blankOut (p : Pattern) (t : Text) : Thinned t (p.blankOut t) :=
  thinned_extract p _ t

/-- **What has no space is not made by blanking out words.** -/
theorem Thinned.occursIn (htu : Thinned t u) (hp : p.isPlain = true) (hspace : p.refuses ' ' = true)
    (hoccurs : p.occursIn u = true) : p.occursIn t = true := by
  obtain ⟨h, hh, hne, hstretch⟩ := (occursIn_iff_spells hp).1 hoccurs
  have htext := htu h.taken (hh.not_mem hspace) hstretch
  exact (occursIn_iff_spells hp).2 ⟨h, hh, hne, htext⟩

theorem Thinned.occursIn_eq_false (htu : Thinned t u) (hp : p.isPlain = true)
    (hspace : p.refuses ' ' = true) (ht : p.occursIn t = false) : p.occursIn u = false := by
  rw [← Bool.not_eq_true] at ht ⊢
  exact fun hoccurs => ht (htu.occursIn hp hspace hoccurs)

section Blanks

variable {k : Hit} {pieces : List Piece}

/-- A stretch without a space at the start of a text with its hits blanked out stands at the start
of the text itself. -/
theorem Scans.starts_of_starts (hscan : p.Scans before t pieces) (hspace : ' ' ∉ w)
    (hw : w <+: pieces.flatMap (leavePiece fun _ h => some h)) : w <+: t := by
  induction hscan generalizing w with
  | nil => exact hw
  | loose hnone htail ih =>
    cases w with
    | nil => exact List.nil_prefix
    | cons d w =>
      obtain ⟨hd, hw⟩ := List.cons_prefix_cons.1 hw
      exact List.cons_prefix_cons.2 ⟨hd, ih (fun hmem => hspace (List.mem_cons_of_mem d hmem)) hw⟩
  | hit hfirst htail ih =>
    cases w with
    | nil => exact List.nil_prefix
    | cons d w =>
      obtain ⟨rfl, -⟩ := List.cons_prefix_cons.1 hw
      exact absurd List.mem_cons_self hspace

/-- What a plain pattern spells without a space does not stand in a text with its hits blanked out:
where it starts no hit has been found. -/
theorem Scans.not_stretch (hscan : p.Scans before t pieces) (hp : p.isPlain = true)
    (hk : p.Spells k) (hne : k.taken ≠ []) (hspace : ' ' ∉ k.taken) :
    ¬ k.taken <:+: pieces.flatMap (leavePiece fun _ h => some h) := by
  induction hscan with
  | nil => exact fun hstretch => hne (List.infix_nil.1 hstretch)
  | @loose before c r pieces hnone htail ih =>
    intro hstretch
    rcases List.infix_cons_iff.1 hstretch with hfront | hbehind
    · obtain ⟨u, hu⟩ := (Scans.loose hnone htail).starts_of_starts hspace hfront
      have hmem := withRest_mem_hits hp hk before u
      rw [Hit.withRest, hu] at hmem
      rw [first?, List.find?_eq_none] at hnone
      exact hnone _ hmem (by simpa [Hit.withRest] using hne)
    · exact ih hbehind
  | hit hfirst htail ih =>
    intro hstretch
    rcases infix_append_cons (x := []) hspace hstretch with hfront | hbehind
    · exact hne (List.infix_nil.1 hfront)
    · exact ih hbehind

/-- **Blanking out leaves no hit behind**, if hits take no spaces. -/
theorem occursIn_blankOut (hp : p.isPlain = true) (hspace : p.refuses ' ' = true) (t : Text) :
    p.occursIn (p.blankOut t) = false := by
  rw [← Bool.not_eq_true, occursIn_iff_spells hp]
  rintro ⟨h, hh, hne, hstretch⟩
  exact (p.scans_scan t).not_stretch hp hh hne (hh.not_mem hspace) hstretch

end Blanks

/-- An extraction that leaves no space changes nothing. -/
theorem extract_snd_of_not_mem (hspace : ' ' ∉ (p.extract read t).2) :
    (p.extract read t).2 = t := by
  apply extract_snd_of_fst_eq_nil
  rw [extract, List.filterMap_eq_nil_iff]
  intro piece hpiece
  by_contra hread
  refine hspace (List.mem_flatMap.2 ⟨piece, hpiece, ?_⟩)
  rw [leavePiece, if_pos (Option.isSome_iff_ne_none.2 hread)]
  exact List.mem_singleton_self ' '

/-! ## Patterns that keep nothing -/

/-- Whether no part of the pattern is kept. -/
def keepsNothing : Pattern → Bool
  | .seq p q => p.keepsNothing && q.keepsNothing
  | .alt p q => p.keepsNothing && q.keepsNothing
  | .star p => p.keepsNothing
  | .keep _ _ => false
  | _ => true

theorem parts_eq_nil_of_mem_hitsMany {n : Nat}
    (hp : ∀ {before t h}, h ∈ p.hits before t → h.parts = [])
    (hh : h ∈ hitsMany p.hits n before t) : h.parts = [] := by
  induction n generalizing before t h with
  | zero =>
    obtain rfl : h = .nothing t := by simpa [hitsMany] using hh
    rfl
  | succ n ih =>
    rcases mem_hitsMany_succ.1 hh with ⟨g, hg, -, k, hk, rfl⟩ | rfl
    · show k.parts ++ g.parts = []
      rw [ih hk, hp hg]
      rfl
    · rfl

theorem parts_eq_nil (hp : p.keepsNothing = true) (hh : h ∈ p.hits before t) : h.parts = [] := by
  induction p generalizing before t h with
  | empty =>
    obtain rfl : h = .nothing t := by simpa [hits] using hh
    rfl
  | one accept =>
    obtain ⟨c, r, rfl, -, rfl⟩ := mem_hits_one.1 hh
    rfl
  | seq p q ihp ihq =>
    obtain ⟨hp, hq⟩ : p.keepsNothing = true ∧ q.keepsNothing = true := Bool.and_eq_true_iff.1 hp
    obtain ⟨g, hg, k, hk, rfl⟩ := mem_hits_seq.1 hh
    show k.parts ++ g.parts = []
    rw [ihp hp hg, ihq hq hk]
    rfl
  | alt p q ihp ihq =>
    obtain ⟨hp, hq⟩ : p.keepsNothing = true ∧ q.keepsNothing = true := Bool.and_eq_true_iff.1 hp
    rw [hits, List.mem_append] at hh
    exact hh.elim (ihp hp) (ihq hq)
  | star p ih => exact parts_eq_nil_of_mem_hitsMany (fun hh => ih hp hh) hh
  | keep slot p ih => exact absurd hp Bool.false_ne_true
  | atStart =>
    rw [hits] at hh
    obtain rfl := eq_nothing_of_mem_ite hh
    rfl
  | atEnd =>
    rw [hits] at hh
    obtain rfl := eq_nothing_of_mem_ite hh
    rfl
  | atWordEdge =>
    rw [hits] at hh
    obtain rfl := eq_nothing_of_mem_ite hh
    rfl

end Pattern

end OpeningHours
