import Mathlib.Data.List.Basic
import OpeningHours.Proofs.Text.Pieces

/-!
# Cutting at the top level loses nothing

A text is cut exactly where a separator stands and no bracket is open. Brackets of all kinds are
counted together, and one that closes without being open is not counted, so this makes sense for
texts with unbalanced brackets too.

* `depthAt`, `stretches`, `putBack`: how many brackets are open at a place, the stretches of a text
  between given places, and the text that stretches and the characters between them make up;
* **`putBack_stretches`**: whatever the places are, the stretches between them make up the text;
* **`cutTopLevel_eq_stretches`**: the pieces of a text are the stretches between its `cutPlaces`,
  which `mem_cutPlaces` characterizes;
* **`cutTopLevel_of_mem`**: a piece is not cut any further.
-/

namespace OpeningHours.Text

variable {isSep : Char → Bool} {t p : Text} {depth i : Nat}

/-! ## Places and stretches -/

/-- How many brackets are open in front of the character at a place. -/
def depthAt (t : Text) (i : Nat) : Nat :=
  (t.take i).foldl depthAfter 0

/-- The stretches of a text from `start` on, between the characters at the given places. -/
def stretches (t : Text) : Nat → List Nat → List Text
  | start, [] => [t.drop start]
  | start, i :: places => (t.take i).drop start :: stretches t (i + 1) places

/-- The text that is made up of pieces with one character between each two of them. -/
def putBack : List Text → List Char → Text
  | piece :: pieces, mark :: marks => piece ++ mark :: putBack pieces marks
  | pieces, _ => pieces.flatten

/-- **Stretches with the characters between them make up the text**, wherever it is cut. -/
theorem putBack_stretches {places : List Nat} {start : Nat} (hplaces : places.Pairwise (· < ·))
    (hbounds : ∀ i ∈ places, start ≤ i ∧ i < t.length) :
    putBack (stretches t start places) (places.filterMap (t[·]?)) = t.drop start := by
  induction places generalizing start with
  | nil => simp [stretches, putBack]
  | cons i places ih =>
    obtain ⟨hfirst, hplaces⟩ := List.pairwise_cons.1 hplaces
    obtain ⟨hstart, hi⟩ := hbounds i List.mem_cons_self
    have hrest := ih hplaces fun j hj =>
      ⟨hfirst j hj, (hbounds j (List.mem_cons_of_mem i hj)).2⟩
    calc putBack (stretches t start (i :: places)) ((i :: places).filterMap (t[·]?))
        = (t.take i).drop start ++ t[i] ::
            putBack (stretches t (i + 1) places) (places.filterMap (t[·]?)) := by
          rw [stretches, List.filterMap_cons_some (List.getElem?_eq_getElem hi), putBack]
      _ = (t.take i).drop start ++ t.drop i := by rw [hrest, List.drop_eq_getElem_cons hi]
      _ = (t.take i ++ t.drop i).drop start := by
          rw [List.drop_append_of_le_length]
          rw [List.length_take]
          omega
      _ = t.drop start := by rw [List.take_append_drop]

theorem stretches_cons_succ (c : Char) (t : Text) (start : Nat) (places : List Nat) :
    stretches (c :: t) (start + 1) (places.map (· + 1)) = stretches t start places := by
  induction places generalizing start with
  | nil => rfl
  | cons i places ih => rw [List.map_cons, stretches, ih]; rfl

/-- A character in front that is no place of a cut belongs to the first stretch. -/
theorem stretches_cons (c : Char) (t : Text) (places : List Nat) :
    stretches (c :: t) 0 (places.map (· + 1)) = extendHead c (stretches t 0 places) := by
  cases places with
  | nil => rfl
  | cons i places => rw [List.map_cons, stretches, stretches_cons_succ]; rfl

/-! ## The places of the cuts -/

/-- The places of the separators outside brackets, where `depth` brackets are open in front of the
text. -/
def cutPlaces (isSep : Char → Bool) : Nat → Text → List Nat
  | _, [] => []
  | depth, c :: r =>
    let later := (cutPlaces isSep (depthAfter depth c) r).map (· + 1)
    if cutsAt isSep depth c then 0 :: later else later

theorem mem_cutPlaces : i ∈ cutPlaces isSep depth t ↔
    ∃ c, t[i]? = some c ∧ cutsAt isSep ((t.take i).foldl depthAfter depth) c = true := by
  induction t generalizing depth i with
  | nil => simp [cutPlaces]
  | cons c t ih =>
    rw [cutPlaces]
    cases i with
    | zero => cases hc : cutsAt isSep depth c <;> simp [hc]
    | succ i => cases hc : cutsAt isSep depth c <;> simp [ih]

theorem pairwise_cutPlaces (isSep : Char → Bool) (depth : Nat) (t : Text) :
    (cutPlaces isSep depth t).Pairwise (· < ·) := by
  induction t generalizing depth with
  | nil => exact .nil
  | cons c t ih =>
    have hlater : ((cutPlaces isSep (depthAfter depth c) t).map (· + 1)).Pairwise (· < ·) :=
      List.pairwise_map.2 ((ih _).imp Nat.succ_lt_succ)
    rw [cutPlaces]
    cases cutsAt isSep depth c with
    | false => exact hlater
    | true => exact List.pairwise_cons.2 ⟨by simp, hlater⟩

/-- **The pieces of a text are the stretches between its cuts.** -/
theorem cutTopLevel_eq_stretches (isSep : Char → Bool) (depth : Nat) (t : Text) :
    cutTopLevel isSep depth t = stretches t 0 (cutPlaces isSep depth t) := by
  induction t generalizing depth with
  | nil => rfl
  | cons c t ih =>
    rw [cutTopLevel, cutPlaces]
    cases hc : cutsAt isSep depth c with
    | true =>
      rw [if_pos rfl, if_pos rfl, depthAfter_of_cutsAt hc, ih, stretches, stretches_cons_succ]
      rfl
    | false =>
      rw [if_neg Bool.false_ne_true, if_neg Bool.false_ne_true, ih, stretches_cons]

theorem cutsAt_iff_of_not_bracket
    (hsep : ∀ c, isSep c = true → isOpening c = false ∧ isClosing c = false) {c : Char} :
    cutsAt isSep depth c = true ↔ isSep c = true ∧ depth = 0 := by
  simp only [cutsAt, Bool.and_eq_true, beq_iff_eq, Bool.not_eq_true']
  constructor
  · rintro ⟨⟨⟨hdepth, hc⟩, -⟩, -⟩
    exact ⟨hc, hdepth⟩
  · rintro ⟨hc, hdepth⟩
    exact ⟨⟨⟨hdepth, hc⟩, (hsep c hc).1⟩, (hsep c hc).2⟩

/-! ## Cutting a piece again -/

/-- No piece is cut any further. The first one starts where the text does, so that as many brackets
are open in front of it; the others start behind a separator outside brackets. -/
theorem cutTopLevel_pieces {pieces : List Text} (h : cutTopLevel isSep depth t = p :: pieces) :
    cutTopLevel isSep depth p = [p] ∧ ∀ q ∈ pieces, cutTopLevel isSep 0 q = [q] := by
  induction t generalizing depth p pieces with
  | nil =>
    obtain ⟨rfl, rfl⟩ : [] = p ∧ [] = pieces := by simpa [cutTopLevel] using h
    exact ⟨rfl, by simp⟩
  | cons c t ih =>
    rw [cutTopLevel] at h
    cases hc : cutsAt isSep depth c with
    | true =>
      obtain rfl : depth = 0 := by
        simp only [cutsAt, Bool.and_eq_true, beq_iff_eq] at hc
        exact hc.1.1.1
      rw [hc, if_pos rfl, List.cons.injEq] at h
      obtain ⟨rfl, hpieces⟩ := h
      obtain ⟨q, qs, hqs⟩ := List.exists_cons_of_ne_nil (cutTopLevel_ne_nil isSep 0 t)
      obtain ⟨hq, hrest⟩ := ih hqs
      refine ⟨rfl, ?_⟩
      rw [← hpieces, hqs, List.forall_mem_cons]
      exact ⟨hq, hrest⟩
    | false =>
      obtain ⟨q, qs, hqs⟩ :=
        List.exists_cons_of_ne_nil (cutTopLevel_ne_nil isSep (depthAfter depth c) t)
      obtain ⟨hq, hrest⟩ := ih hqs
      rw [hc, if_neg Bool.false_ne_true, hqs, extendHead, List.cons.injEq] at h
      obtain ⟨rfl, rfl⟩ := h
      refine ⟨?_, hrest⟩
      rw [cutTopLevel, hc, if_neg Bool.false_ne_true, hq]
      rfl

/-- **A piece is not cut any further.** -/
theorem cutTopLevel_of_mem (hp : p ∈ cutTopLevel isSep 0 t) : cutTopLevel isSep 0 p = [p] := by
  obtain ⟨q, qs, hqs⟩ := List.exists_cons_of_ne_nil (cutTopLevel_ne_nil isSep 0 t)
  obtain ⟨hq, hrest⟩ := cutTopLevel_pieces hqs
  rw [hqs, List.mem_cons] at hp
  rcases hp with rfl | hp
  · exact hq
  · exact hrest p hp

theorem splitTopLevel_of_mem (hp : p ∈ splitTopLevel isSep t) : splitTopLevel isSep p = [p] := by
  obtain ⟨hmem, hblank⟩ := List.mem_filter.1 hp
  rw [splitTopLevel, cutTopLevel_of_mem hmem]
  exact List.filter_eq_self.2 fun _ hq => (List.mem_singleton.1 hq) ▸ hblank

/-! ## The whole cut -/

/-- **Cutting loses nothing and cuts only outside brackets.** The text is cut at the places of the
separators in front of which no bracket is open. The stretches between them with the separators put
back make up the text, the pieces are those of the stretches that hold more than blanks, and a piece
is left whole when it is cut again. -/
theorem splitTopLevel_conserves
    (hsep : ∀ c, isSep c = true → isOpening c = false ∧ isClosing c = false) (t : Text) :
    ∃ places : List Nat, places.Pairwise (· < ·) ∧
      (∀ i, i ∈ places ↔ ∃ c, t[i]? = some c ∧ isSep c = true ∧ depthAt t i = 0) ∧
      putBack (stretches t 0 places) (places.filterMap (t[·]?)) = t ∧
      splitTopLevel isSep t =
        (stretches t 0 places).filter (fun piece => piece.any fun c => !isBlank c) ∧
      ∀ piece ∈ splitTopLevel isSep t, splitTopLevel isSep piece = [piece] := by
  have hascending := pairwise_cutPlaces isSep 0 t
  have hmem (i : Nat) : i ∈ cutPlaces isSep 0 t ↔
      ∃ c, t[i]? = some c ∧ isSep c = true ∧ depthAt t i = 0 := by
    rw [mem_cutPlaces]
    exact exists_congr fun c => and_congr_right' (cutsAt_iff_of_not_bracket hsep)
  have hbounds : ∀ i ∈ cutPlaces isSep 0 t, 0 ≤ i ∧ i < t.length := by
    intro i hi
    obtain ⟨c, hc, -⟩ := mem_cutPlaces.1 hi
    exact ⟨Nat.zero_le i, (List.getElem?_eq_some_iff.1 hc).1⟩
  refine ⟨cutPlaces isSep 0 t, hascending, hmem, putBack_stretches hascending hbounds, ?_,
    fun _ => splitTopLevel_of_mem⟩
  rw [splitTopLevel, cutTopLevel_eq_stretches]
  refine List.filter_congr fun piece _ => ?_
  exact List.not_all_eq_any_not

/-- Brackets that are not balanced, two kinds of separators and a piece of blanks. -/
theorem splitTopLevel_conserves_unbalanced :
    let isSep : Char → Bool := fun c => c == ',' || c == '、'
    let t : Text := "a),(b、c],d、 ,【e,f".toList
    (∀ c, isSep c = true → isOpening c = false ∧ isClosing c = false) ∧
      splitTopLevel isSep t = ["a)".toList, "(b、c]".toList, "d".toList, "【e,f".toList] ∧
      ∃ places : List Nat,
        (∀ i, i ∈ places ↔ ∃ c, t[i]? = some c ∧ isSep c = true ∧ depthAt t i = 0) ∧
        putBack (stretches t 0 places) (places.filterMap (t[·]?)) = t := by
  intro isSep t
  have hsep : ∀ c, isSep c = true → isOpening c = false ∧ isClosing c = false := by
    intro c hc
    rcases Bool.or_eq_true_iff.1 hc with h | h <;> rw [eq_of_beq h] <;> decide
  obtain ⟨places, -, hmem, htext, -, -⟩ := splitTopLevel_conserves hsep t
  exact ⟨hsep, by decide, places, hmem, htext⟩

end OpeningHours.Text
