import Mathlib.Data.List.Basic
import OpeningHours.Text.Bracket

/-!
# Cutting a text into the pieces that it was joined from

A text joined from pieces is cut into these pieces again if the joining character is a separator
outside brackets and the pieces hold neither separators nor brackets
(**`splitTopLevel_intercalate`**). Without a separator there is one piece, whatever brackets it
holds (`splitTopLevel_of_no_separator`). Two texts with a separator between them are cut on their
own if all brackets of the first are closed (**`splitTopLevel_append_cons`**), and a text without
separators behind it goes on in its last piece (`exists_cutTopLevel_append`).
-/

namespace OpeningHours.Text

variable {isSep : Char → Bool}

/-- What holds of the pieces, and of two texts joined if it holds of both, holds of the joined
text. -/
theorem intercalate_induction {P : Text → Prop} {s : Char} {pieces : List Text}
    (hjoin : ∀ t u, P t → P u → P (t ++ s :: u)) (hne : pieces ≠ [])
    (hpieces : ∀ t ∈ pieces, P t) : P ([s].intercalate pieces) := by
  match pieces, hne with
  | [t], _ =>
    rw [List.intercalate_singleton]
    exact hpieces t List.mem_cons_self
  | t :: u :: ts, _ =>
    rw [List.intercalate_cons_cons, List.append_assoc, List.singleton_append]
    refine hjoin _ _ (hpieces t List.mem_cons_self) ?_
    exact intercalate_induction hjoin (List.cons_ne_nil u ts)
      fun v hv => hpieces v (List.mem_cons_of_mem t hv)

/-- The first piece, and the others each behind a separator. -/
theorem intercalate_map_cons {α : Type} (s : Char) (f : α → Text) (x : α) (xs : List α) :
    [s].intercalate ((x :: xs).map f) = f x ++ xs.flatMap fun y => s :: f y := by
  induction xs generalizing x with
  | nil => simp
  | cons y ys ih =>
    have htail := ih y
    rw [List.map_cons] at htail
    rw [List.map_cons, List.map_cons, List.intercalate_cons_cons, htail, List.flatMap_cons]
    simp

/-- What stands behind joined pieces stands behind the last of them. -/
theorem intercalate_concat_append (s : Char) (pieces : List Text) (last tail : Text) :
    [s].intercalate (pieces ++ [last]) ++ tail = [s].intercalate (pieces ++ [last ++ tail]) := by
  match pieces with
  | [] => simp
  | [t] => simp [List.intercalate_cons_cons]
  | t :: u :: ts =>
    have ih := intercalate_concat_append s (u :: ts) last tail
    simp only [List.cons_append, List.intercalate_cons_cons, List.append_assoc] at ih ⊢
    rw [ih]

theorem intercalate_subset {alphabet : List Char} {s : Char} {pieces : List Text}
    (hs : s ∈ alphabet) (hpieces : ∀ t ∈ pieces, t ⊆ alphabet) :
    [s].intercalate pieces ⊆ alphabet := by
  cases pieces with
  | nil => exact List.nil_subset _
  | cons t ts =>
    refine intercalate_induction ?_ (List.cons_ne_nil t ts) hpieces
    intro u v hu hv
    exact List.append_subset.2 ⟨hu, List.cons_subset.2 ⟨hs, hv⟩⟩

theorem cut_of_no_separator {t : Text} (ht : ∀ c ∈ t, isSep c = false) : cut isSep t = [t] := by
  induction t with
  | nil => rfl
  | cons c t ih =>
    rw [cut, ht c List.mem_cons_self, if_neg Bool.false_ne_true,
      ih fun d hd => ht d (List.mem_cons_of_mem c hd)]
    rfl

theorem length_extendHead (c : Char) {pieces : List Text} (hne : pieces ≠ []) :
    (extendHead c pieces).length = pieces.length := by
  obtain ⟨p, ps, rfl⟩ := List.exists_cons_of_ne_nil hne
  rfl

theorem extendHead_append (c : Char) {ps : List Text} (hps : ps ≠ []) (qs : List Text) :
    extendHead c (ps ++ qs) = extendHead c ps ++ qs := by
  cases ps with
  | nil => exact absurd rfl hps
  | cons p ps => rfl

theorem cut_append_cons {s : Char} (hs : isSep s = true) (t u : Text) :
    cut isSep (t ++ s :: u) = cut isSep t ++ cut isSep u := by
  induction t with
  | nil =>
    have hnil : cut isSep [] = [[]] := rfl
    rw [List.nil_append, hnil, cut, if_pos hs]
    rfl
  | cons c t ih =>
    rw [List.cons_append, cut, cut, ih, extendHead_append c (cut_ne_nil isSep t)]
    split <;> rfl

theorem cutTopLevel_of_no_separator {t : Text} (ht : ∀ c ∈ t, isSep c = false) (depth : Nat) :
    cutTopLevel isSep depth t = [t] := by
  induction t generalizing depth with
  | nil => rfl
  | cons c t ih =>
    have hc : cutsAt isSep depth c = false := by simp [cutsAt, ht c List.mem_cons_self]
    rw [cutTopLevel, hc, if_neg Bool.false_ne_true, ih fun d hd => ht d (List.mem_cons_of_mem c hd)]
    rfl

theorem splitTopLevel_of_no_separator {t : Text} (ht : ∀ c ∈ t, isSep c = false)
    (hblank : isAllBlank t = false) : splitTopLevel isSep t = [t] := by
  rw [splitTopLevel, cutTopLevel_of_no_separator ht]
  simp [hblank]

/-- Whether the character neither separates nor opens or closes a bracket. -/
def isInner (isSep : Char → Bool) (c : Char) : Bool :=
  !isSep c && !isOpening c && !isClosing c

theorem cutTopLevel_append_cons {t : Text} (ht : ∀ c ∈ t, isInner isSep c = true) {s : Char}
    (hs : cutsAt isSep 0 s = true) (u : Text) :
    cutTopLevel isSep 0 (t ++ s :: u) = t :: cutTopLevel isSep 0 u := by
  induction t with
  | nil => rw [List.nil_append, cutTopLevel, hs, if_pos rfl]
  | cons c t ih =>
    have hc := ht c List.mem_cons_self
    simp only [isInner, Bool.and_eq_true, Bool.not_eq_true'] at hc
    obtain ⟨⟨hsep, hopen⟩, hclose⟩ := hc
    have hcut : cutsAt isSep 0 c = false := by simp [cutsAt, hsep]
    have hdepth : depthAfter 0 c = 0 := by simp [depthAfter, hopen, hclose]
    rw [List.cons_append, cutTopLevel, hcut, if_neg Bool.false_ne_true, hdepth,
      ih fun d hd => ht d (List.mem_cons_of_mem c hd)]
    rfl

theorem cutTopLevel_intercalate {pieces : List Text} (hne : pieces ≠ [])
    (hinner : ∀ t ∈ pieces, ∀ c ∈ t, isInner isSep c = true) {s : Char}
    (hs : cutsAt isSep 0 s = true) :
    cutTopLevel isSep 0 ([s].intercalate pieces) = pieces := by
  match pieces, hne with
  | [t], _ =>
    rw [List.intercalate_singleton]
    apply cutTopLevel_of_no_separator
    intro c hc
    have := hinner t List.mem_cons_self c hc
    simp only [isInner, Bool.and_eq_true, Bool.not_eq_true'] at this
    exact this.1.1
  | t :: u :: ts, _ =>
    have ht := hinner t List.mem_cons_self
    have hts : ∀ v ∈ u :: ts, ∀ c ∈ v, isInner isSep c = true :=
      fun v hv => hinner v (List.mem_cons_of_mem t hv)
    rw [List.intercalate_cons_cons, List.append_assoc, List.singleton_append,
      cutTopLevel_append_cons ht hs, cutTopLevel_intercalate (List.cons_ne_nil u ts) hts hs]

/-- **A joined text is cut into the pieces that it was joined from.** -/
theorem splitTopLevel_intercalate {pieces : List Text} (hne : pieces ≠ [])
    (hinner : ∀ t ∈ pieces, ∀ c ∈ t, isInner isSep c = true)
    (hblank : ∀ t ∈ pieces, isAllBlank t = false) {s : Char} (hs : cutsAt isSep 0 s = true) :
    splitTopLevel isSep ([s].intercalate pieces) = pieces := by
  rw [splitTopLevel, cutTopLevel_intercalate hne hinner hs, List.filter_eq_self]
  intro t ht
  rw [hblank t ht]
  rfl

/-! ## Two texts -/

theorem depthAfter_of_cutsAt {depth : Nat} {c : Char} (hc : cutsAt isSep depth c = true) :
    depthAfter depth c = depth := by
  simp only [cutsAt, Bool.and_eq_true, Bool.not_eq_true'] at hc
  simp [depthAfter, hc.1.2, hc.2]

theorem cutTopLevel_append_of_depth {t : Text} {depth : Nat} (ht : t.foldl depthAfter depth = 0)
    {s : Char} (hs : cutsAt isSep 0 s = true) (u : Text) :
    cutTopLevel isSep depth (t ++ s :: u) =
      cutTopLevel isSep depth t ++ cutTopLevel isSep 0 u := by
  induction t generalizing depth with
  | nil =>
    obtain rfl : depth = 0 := ht
    have hnil : cutTopLevel isSep 0 [] = [[]] := rfl
    rw [List.nil_append, hnil, cutTopLevel, if_pos hs]
    rfl
  | cons c t ih =>
    rw [List.foldl_cons] at ht
    rw [List.cons_append, cutTopLevel, cutTopLevel, ih ht]
    split
    · next hc =>
      rw [depthAfter_of_cutsAt hc] at ht
      rw [ih ht]
      rfl
    · exact extendHead_append c (cutTopLevel_ne_nil isSep _ t) _

/-- **Two texts with a separator between them are cut on their own**, if every bracket of the first
is closed at its end. -/
theorem splitTopLevel_append_cons {t : Text} (ht : t.foldl depthAfter 0 = 0) {s : Char}
    (hs : cutsAt isSep 0 s = true) (u : Text) :
    splitTopLevel isSep (t ++ s :: u) = splitTopLevel isSep t ++ splitTopLevel isSep u := by
  rw [splitTopLevel, cutTopLevel_append_of_depth ht hs, List.filter_append]
  rfl

/-- Text without separators goes on in the last piece, which starts and ends outside brackets if the
text does. -/
theorem exists_cutTopLevel_append (isSep : Char → Bool) {t : Text} {depth : Nat}
    (ht : t.foldl depthAfter depth = 0) :
    ∃ front last,
      (∀ u, (∀ c ∈ u, isSep c = false) →
        cutTopLevel isSep depth (t ++ u) = front ++ [last ++ u]) ∧
      last.foldl depthAfter (if front.isEmpty then depth else 0) = 0 := by
  induction t generalizing depth with
  | nil =>
    refine ⟨[], [], fun u hu => ?_, ht⟩
    rw [List.nil_append, cutTopLevel_of_no_separator hu]
    rfl
  | cons c t ih =>
    rw [List.foldl_cons] at ht
    obtain ⟨front, last, hcut, hdepth⟩ := ih ht
    cases hc : cutsAt isSep depth c with
    | true =>
      obtain rfl : depth = 0 := by
        simp only [cutsAt, Bool.and_eq_true, beq_iff_eq] at hc
        exact hc.1.1.1
      rw [depthAfter_of_cutsAt hc] at hcut hdepth
      refine ⟨[] :: front, last, fun u hu => ?_, ?_⟩
      · rw [List.cons_append, cutTopLevel, hc, if_pos rfl, hcut u hu]
        rfl
      · simpa using hdepth
    | false =>
      have hextend (u : Text) (hu : ∀ d ∈ u, isSep d = false) :
          cutTopLevel isSep depth (c :: t ++ u) = extendHead c (front ++ [last ++ u]) := by
        rw [List.cons_append, cutTopLevel, hc, if_neg Bool.false_ne_true, hcut u hu]
      cases front with
      | nil => exact ⟨[], c :: last, hextend, hdepth⟩
      | cons p front => exact ⟨(c :: p) :: front, last, hextend, hdepth⟩

end OpeningHours.Text
