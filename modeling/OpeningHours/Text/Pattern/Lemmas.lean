import OpeningHours.Text.Pattern.Basic

/-!
# Patterns: what a hit is

Statements about every pattern. The hits of a pattern are those of its parts put together
(`mem_hits_one`, `mem_hits_seq`, `mem_hits_keep`, `mem_hitsMany_succ`). A hit is a stretch of the
text (`taken_append_rest`); hence a hit that takes something leaves a shorter text, scanning loses
nothing (`flatMap_text_scan`), and an extraction that reads nothing leaves the text as it was
(`extract_snd_of_fst_eq_nil`).
-/

namespace OpeningHours

namespace Hit

@[simp] theorem taken_nothing (t : Text) : (nothing t).taken = [] := rfl

@[simp] theorem rest_nothing (t : Text) : (nothing t).rest = t := rfl

@[simp] theorem taken_andThen (h k : Hit) : (h.andThen k).taken = h.taken ++ k.taken := rfl

@[simp] theorem rest_andThen (h k : Hit) : (h.andThen k).rest = k.rest := rfl

end Hit

namespace Pattern

/-! ## The hits of each form of pattern -/

section Forms

variable {p q : Pattern} {before : Option Char} {t : Text} {h : Hit}

theorem mem_hits_one {accept : Char → Bool} :
    h ∈ (one accept).hits before t ↔ ∃ c r, t = c :: r ∧ accept c = true ∧ h = ⟨[c], [], r⟩ := by
  cases t with
  | nil => simp [hits]
  | cons d r =>
    rw [hits]
    constructor
    · intro hh
      split at hh
      · next hd => exact ⟨d, r, rfl, hd, List.mem_singleton.1 hh⟩
      · exact absurd hh List.not_mem_nil
    · rintro ⟨c, u, heq, hc, rfl⟩
      obtain ⟨rfl, rfl⟩ := List.cons.inj heq
      rw [if_pos hc]
      exact List.mem_singleton_self _

theorem mem_hits_seq :
    h ∈ (seq p q).hits before t ↔
      ∃ g ∈ p.hits before t, ∃ k ∈ q.hits (g.lastTaken before) g.rest, g.andThen k = h := by
  simp only [hits, List.mem_flatMap, List.mem_map]

theorem mem_hits_keep {slot : Slot} :
    h ∈ (keep slot p).hits before t ↔
      ∃ g ∈ p.hits before t, { g with parts := (slot, g.taken) :: g.parts } = h := by
  rw [hits, List.mem_map]

/-- A hit of a repetition is made of a hit that takes something and a hit of the repetition behind
it, or it takes nothing. -/
theorem mem_hitsMany_succ {step : Option Char → Text → List Hit} {n : Nat} :
    h ∈ hitsMany step (n + 1) before t ↔
      (∃ g ∈ step before t, g.taken ≠ [] ∧
        ∃ k ∈ hitsMany step n (g.lastTaken before) g.rest, g.andThen k = h) ∨ h = .nothing t := by
  simp only [hitsMany, List.mem_append, List.mem_flatMap, List.mem_filter, List.mem_map,
    List.mem_singleton, Bool.not_eq_true', List.isEmpty_eq_false_iff, and_assoc]

/-- The hits of the patterns that only look around take nothing. -/
theorem eq_nothing_of_mem_ite {c : Prop} [Decidable c]
    (hh : h ∈ if c then [Hit.nothing t] else []) : h = .nothing t := by
  split at hh
  · exact List.mem_singleton.1 hh
  · exact absurd hh List.not_mem_nil

end Forms

/-! ## A hit is a stretch of the text -/

theorem taken_append_rest_of_mem_hitsMany {step : Option Char → Text → List Hit}
    (hstep : ∀ b t h, h ∈ step b t → h.taken ++ h.rest = t) (n : Nat) (before : Option Char)
    (t : Text) {h : Hit} (hh : h ∈ hitsMany step n before t) : h.taken ++ h.rest = t := by
  induction n generalizing before t h with
  | zero =>
    obtain rfl : h = .nothing t := by simpa [hitsMany] using hh
    simp
  | succ n ih =>
    rcases mem_hitsMany_succ.1 hh with ⟨g, hg, -, k, hk, rfl⟩ | rfl
    · have hgt := hstep before t g hg
      have hkt := ih _ _ hk
      simp [List.append_assoc, hkt, hgt]
    · simp

/-- **A hit is a stretch of the text:** what it takes and what it leaves make up the text. -/
theorem taken_append_rest (p : Pattern) (before : Option Char) (t : Text) {h : Hit}
    (hh : h ∈ p.hits before t) : h.taken ++ h.rest = t := by
  induction p generalizing before t h with
  | empty =>
    obtain rfl : h = .nothing t := by simpa [hits] using hh
    simp
  | one accept =>
    obtain ⟨c, r, rfl, -, rfl⟩ := mem_hits_one.1 hh
    rfl
  | seq p q ihp ihq =>
    obtain ⟨g, hg, k, hk, rfl⟩ := mem_hits_seq.1 hh
    have hgt := ihp _ _ hg
    have hkt := ihq _ _ hk
    simp [List.append_assoc, hkt, hgt]
  | alt p q ihp ihq =>
    rw [hits, List.mem_append] at hh
    exact hh.elim (ihp _ _) (ihq _ _)
  | star p ih =>
    rw [hits] at hh
    exact taken_append_rest_of_mem_hitsMany (fun b t h hb => ih b t hb) _ _ _ hh
  | keep slot p ih =>
    obtain ⟨g, hg, rfl⟩ := mem_hits_keep.1 hh
    have hgt : g.taken ++ g.rest = t := ih _ _ hg
    exact hgt
  | atStart =>
    rw [hits] at hh
    obtain rfl := eq_nothing_of_mem_ite hh
    simp
  | atEnd =>
    rw [hits] at hh
    obtain rfl := eq_nothing_of_mem_ite hh
    simp
  | atWordEdge =>
    rw [hits] at hh
    obtain rfl := eq_nothing_of_mem_ite hh
    simp

theorem first?_eq_some {p : Pattern} {before : Option Char} {t : Text} {h : Hit}
    (hh : p.first? before t = some h) : h.taken ≠ [] ∧ h.taken ++ h.rest = t := by
  have hne : (!h.taken.isEmpty) = true := List.find?_some (p := fun h : Hit => !h.taken.isEmpty) hh
  refine ⟨by simpa using hne, taken_append_rest p before t (List.mem_of_find?_eq_some hh)⟩

/-! ## Searching -/

/-- The text in front of the first hit, the hit and the rest make up the text. -/
theorem findFrom?_eq_some {p : Pattern} {before : Option Char} {t skipped : Text} {h : Hit}
    (hh : p.findFrom? before t = some (skipped, h)) :
    h.taken ≠ [] ∧ skipped ++ h.taken ++ h.rest = t := by
  induction t generalizing before skipped with
  | nil => simp [findFrom?] at hh
  | cons c r ih =>
    rw [findFrom?] at hh
    split at hh
    · next k hk =>
      obtain ⟨rfl, rfl⟩ : [] = skipped ∧ k = h := by simpa using hh
      simpa using first?_eq_some hk
    · obtain ⟨⟨s, k⟩, hk, he⟩ := Option.map_eq_some_iff.1 hh
      obtain ⟨rfl, rfl⟩ : c :: s = skipped ∧ k = h := by simpa using he
      have := ih hk
      exact ⟨this.1, by simp [this.2]⟩

/-- A hit leaves a shorter text. -/
theorem rest_length_lt_of_find? {p : Pattern} {t skipped : Text} {h : Hit}
    (hh : p.find? t = some (skipped, h)) : h.rest.length < t.length := by
  obtain ⟨hne, ht⟩ := findFrom?_eq_some hh
  have hpos : 0 < h.taken.length := List.length_pos_iff.2 hne
  have := congrArg List.length ht
  simp only [List.length_append] at this
  omega

/-! ## Scanning -/

theorem flatMap_text_scanFrom (p : Pattern) (k : Nat) (before : Option Char) (t : Text) :
    (p.scanFrom k before t).flatMap Piece.text = t.drop k := by
  induction t generalizing k before with
  | nil => simp [scanFrom]
  | cons c r ih =>
    cases k with
    | succ k => simpa [scanFrom] using ih k (some c)
    | zero =>
      rw [scanFrom]
      split
      · next h hh =>
        obtain ⟨hne, ht⟩ := first?_eq_some hh
        obtain ⟨d, v, hv⟩ := List.exists_cons_of_ne_nil hne
        have hr : v ++ h.rest = r := by
          rw [hv] at ht
          simpa using (List.cons.inj ht).2
        have hd : h.taken = c :: v := by
          rw [hv] at ht ⊢
          rw [(List.cons.inj ht).1]
        rw [List.flatMap_cons, ih, Piece.text, hd, ← hr]
        simp
      · rw [List.flatMap_cons, ih]
        simp [Piece.text]

/-- **Scanning loses nothing:** the pieces make up the text. -/
theorem flatMap_text_scan (p : Pattern) (t : Text) : (p.scan t).flatMap Piece.text = t := by
  exact flatMap_text_scanFrom p 0 none t

/-- An extraction that reads nothing leaves the text as it was. -/
theorem extract_snd_of_fst_eq_nil {p : Pattern} {read : Option Char → Hit → Option α} {t : Text}
    (h : (p.extract read t).1 = []) : (p.extract read t).2 = t := by
  have hnone : ∀ piece ∈ p.scan t, readPiece read piece = none := by
    simpa [extract] using h
  have : ∀ pieces : List Piece, (∀ piece ∈ pieces, readPiece read piece = none) →
      pieces.flatMap (leavePiece read) = pieces.flatMap Piece.text := by
    intro pieces hp
    induction pieces with
    | nil => rfl
    | cons piece pieces ih =>
      have h₁ := hp piece (by simp)
      have h₂ := ih fun q hq => hp q (by simp [hq])
      simp [leavePiece, h₁, h₂]
  rw [extract, this _ hnone, flatMap_text_scan]

end Pattern

end OpeningHours
