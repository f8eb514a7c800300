import OpeningHours.Proofs.Text.NormalForm

/-!
# What the normal form keeps and what it puts between

The normal form keeps the characters that are not blank, in their order, and what it puts between
two neighbours depends on them and on the blanks between them only: a line break where there was
one, else a space where there were blanks and no list mark stands at either side, else nothing.
`IsCleanup` says this of two texts without a word on how the second is made, and leaves no choice
(`IsCleanup.unique`). **`isCleanup_iff_eq_normalize`**: the normal form is the only text of which it
holds.

The normal form is read at one run of blanks (`normalize_append_gap`): what stands in front of the
run and what stands behind it get their own normal forms.
-/

namespace OpeningHours.Text

variable {s t r blanks out out' : Text} {a b c d : Char} {gap : Option Char}

/-! ## The characters that are kept -/

/-- The characters that are not blank, in order. -/
def visible (t : Text) : Text :=
  t.filter fun c => !isBlank c

@[simp] theorem visible_nil : visible [] = [] := rfl

@[simp] theorem visible_append (s t : Text) : visible (s ++ t) = visible s ++ visible t :=
  List.filter_append s t

theorem visible_cons (hc : isBlank c = false) (t : Text) : visible (c :: t) = c :: visible t :=
  List.filter_cons_of_pos (by simp [hc])

theorem visible_cons_of_isBlank (hc : isBlank c = true) (t : Text) : visible (c :: t) = visible t :=
  List.filter_cons_of_neg (by simp [hc])

theorem visible_eq_nil_iff : visible t = [] ↔ isAllBlank t = true := by
  simp [visible, isAllBlank, List.filter_eq_nil_iff]

theorem visible_trimStart (t : Text) : visible (trimStart t) = visible t := by
  conv_rhs => rw [← takeWhile_append_trimStart t]
  rw [visible_append, visible_eq_nil_iff.2 (isAllBlank_takeWhile t), List.nil_append]

theorem visible_gap (hgap : ∀ d ∈ gap, isGap d = true) : visible gap.toList = [] := by
  rw [visible_eq_nil_iff, isAllBlank, List.all_eq_true]
  exact fun d hd => isBlank_of_isGap (hgap d (Option.mem_toList.1 hd))

theorem visible_collapse (hgap : ∀ d ∈ gap, isGap d = true) (t : Text) :
    visible (collapse gap t) = visible t := by
  induction t generalizing gap with
  | nil => rfl
  | cons c t ih =>
    by_cases hc : isBlank c = true
    · rw [collapse, if_pos hc, visible_cons_of_isBlank hc]
      exact ih fun d hd => Option.some.inj hd ▸ isGap_joinGap gap c
    · rw [Bool.not_eq_true] at hc
      rw [collapse_cons gap hc, visible_append, visible_gap hgap, List.nil_append, visible_cons hc,
        visible_cons hc, ih (by simp)]

theorem visible_tighten (before : Option Char) (t : Text) :
    visible (tighten before t) = visible t := by
  induction t generalizing before with
  | nil => rfl
  | cons c t ih =>
    rw [tighten]
    split
    · next h => rw [ih, h.1, visible_cons_of_isBlank (by decide)]
    · by_cases hc : isBlank c = true
      · rw [visible_cons_of_isBlank hc, visible_cons_of_isBlank hc, ih]
      · rw [Bool.not_eq_true] at hc
        rw [visible_cons hc, visible_cons hc, ih]

/-- The normal form keeps the characters that are not blank, in half-width form. -/
theorem visible_normalize (t : Text) : visible (normalize t) = visible (t.map halfWidth) := by
  rw [normalize_eq, visible_tighten, visible_collapse (by simp), visible_trimStart]

/-! ## What stands between neighbours -/

/-- What stands between two characters that had a run of blanks, perhaps an empty one, between
them. -/
def gapBetween (a : Char) (blanks : Text) (b : Char) : Text :=
  if '\n' ∈ blanks then ['\n']
  else if blanks ≠ [] ∧ isListMark a = false ∧ isListMark b = false then [' ']
  else []

theorem visible_gapBetween (a : Char) (blanks : Text) (b : Char) :
    visible (gapBetween a blanks b) = [] := by
  rw [gapBetween]
  split
  · rfl
  · split <;> rfl

/-- What a run of blanks has become: a line break if it holds one, else a space. -/
theorem pendingGap_of_isAllBlank (hblanks : isAllBlank blanks = true) (hline : gap ≠ some '\n') :
    pendingGap gap blanks =
      if '\n' ∈ blanks then some '\n' else if blanks = [] then gap else some ' ' := by
  induction blanks generalizing gap with
  | nil => rfl
  | cons c t ih =>
    obtain ⟨hc, ht⟩ := Bool.and_eq_true_iff.1 hblanks
    have hstep : pendingGap gap (c :: t) = pendingGap (some (joinGap gap c)) t := by
      rw [pendingGap, List.foldl_cons, gapAfter, if_pos hc, pendingGap]
    rw [hstep, joinGap]
    by_cases hbreak : c = '\n'
    · rw [if_pos (.inl hbreak), pendingGap_line ht, if_pos (by simp [hbreak])]
    · rw [if_neg (by simp [hbreak, hline]), ih ht (by decide)]
      have hmem : '\n' ∈ c :: t ↔ '\n' ∈ t := by simp [Ne.symm hbreak]
      simp only [hmem, List.cons_ne_nil, if_false, ite_self]

/-- A character that is no blank ends a run of blanks. -/
theorem pendingGap_concat (hc : isBlank c = false) (s : Text) :
    pendingGap gap (s ++ [c]) = none := by
  rw [pendingGap, List.foldl_append, List.foldl_cons, List.foldl_nil, gapAfter, hc,
    if_neg Bool.false_ne_true]

/-- Behind a character that is no space the spaces beside list marks are dropped on their own. -/
theorem tighten_concat_append (hc : c ≠ ' ') (before : Option Char) (s r : Text) :
    tighten before (s ++ c :: r) = tighten before (s ++ [c]) ++ tighten (some c) r := by
  induction s generalizing before with
  | nil =>
    rw [List.nil_append, List.nil_append, tighten_cons_of_ne _ hc, tighten_cons_of_ne _ hc]
    rfl
  | cons d s ih =>
    have hhead : (s ++ c :: r).head? = (s ++ [c]).head? := by cases s <;> rfl
    rw [List.cons_append, List.cons_append, tighten, tighten, hhead, ih]
    split <;> rfl

/-- A run of blanks between two characters of words becomes what stands between them. -/
theorem tighten_pendingGap (hb : b ≠ ' ') (hblanks : isAllBlank blanks = true) (r : Text) :
    tighten (some a) ((pendingGap none blanks).toList ++ b :: r) =
      gapBetween a blanks b ++ tighten none (b :: r) := by
  rw [pendingGap_of_isAllBlank hblanks (by simp), gapBetween]
  split
  · rw [Option.toList_some, List.singleton_append, tighten_cons_of_ne _ (by decide),
      tighten_cons_of_ne _ hb, tighten_cons_of_ne _ hb, List.singleton_append]
  · by_cases hne : blanks = []
    · simp [hne, tighten_cons_of_ne _ hb]
    · rw [if_neg hne, Option.toList_some, List.singleton_append, tighten]
      by_cases ha : isListMark a = true
      · simp [ha, tighten_cons_of_ne _ hb]
      · by_cases hmark : isListMark b = true
        · simp [hmark, tighten_cons_of_ne _ hb]
        · simp [hne, ha, hmark, tighten_cons_of_ne _ hb]

/-! ## The normal form at a run of blanks -/

theorem ne_space_of_not_isBlank (hc : isBlank c = false) : c ≠ ' ' := by
  rintro rfl
  exact absurd hc (by decide)

/-- Blanks in front do not reach the last character. -/
theorem exists_trimStart_concat (hc : isBlank c = false) (s : Text) :
    ∃ front, trimStart (s ++ [c]) = front ++ [c] := by
  by_cases hs : isAllBlank s = true
  · refine ⟨[], ?_⟩
    rw [trimStart_append_of_isAllBlank hs]
    exact List.dropWhile_cons_of_neg (by simp [hc])
  · exact ⟨trimStart s, trimStart_append (by simpa using hs) [c]⟩

/-- **The normal form falls apart at a run of blanks** between two characters of words. -/
theorem normalize_append_gap (hc : isBlank (halfWidth c) = false) (hd : isBlank (halfWidth d) = false)
    (hblanks : isAllBlank (blanks.map halfWidth) = true) (s r : Text) :
    normalize (s ++ c :: (blanks ++ d :: r)) =
      normalize (s ++ [c]) ++
        (gapBetween (halfWidth c) (blanks.map halfWidth) (halfWidth d) ++ normalize (d :: r)) := by
  obtain ⟨front, hfront⟩ := exists_trimStart_concat hc (s.map halfWidth)
  have hspoken : isAllBlank (s.map halfWidth ++ [halfWidth c]) = false := by
    simp [isAllBlank, hc]
  have htext : (s ++ c :: (blanks ++ d :: r)).map halfWidth = (s.map halfWidth ++ [halfWidth c]) ++
      (blanks.map halfWidth ++ halfWidth d :: r.map halfWidth) := by simp
  have hstart : (s ++ [c]).map halfWidth = s.map halfWidth ++ [halfWidth c] := by simp
  have hend : trimStart ((d :: r).map halfWidth) = halfWidth d :: r.map halfWidth :=
    List.dropWhile_cons_of_neg (by simp [hd])
  rw [normalize_eq, normalize_eq (s ++ [c]), normalize_eq (d :: r), htext, hstart, hend,
    trimStart_append hspoken, hfront, collapse_append _ (front ++ [halfWidth c]),
    pendingGap_concat hc, collapse_append none (blanks.map halfWidth),
    collapse_of_isAllBlank none hblanks, List.nil_append, collapse_cons _ hd, collapse_cons _ hd,
    collapse_append none front, collapse_cons _ hc, Option.toList_none, List.nil_append]
  have hsplit := tighten_concat_append (ne_space_of_not_isBlank hc) none
    (collapse none front ++ (pendingGap none front).toList)
    ((pendingGap none (blanks.map halfWidth)).toList ++ halfWidth d :: collapse none (r.map halfWidth))
  rw [tighten_pendingGap (ne_space_of_not_isBlank hd) hblanks] at hsplit
  simpa [collapse] using hsplit

/-! ## Cleaning up -/

/-- **The second text is the cleanup of the first**: it has the same characters in the same order,
blanks aside, it starts and ends with one of them, and between two neighbours stands what the blanks
between them in the first text call for. -/
structure IsCleanup (t out : Text) : Prop where
  visible_eq : visible out = visible t
  between : ∀ {s a blanks b r}, t = s ++ a :: (blanks ++ b :: r) → isBlank a = false →
    isAllBlank blanks = true → isBlank b = false →
      ∃ front rest, out = front ++ a :: (gapBetween a blanks b ++ b :: rest) ∧
        visible front = visible s ∧ visible rest = visible r
  first : ∀ c, out.head? = some c → isBlank c = false
  last : ∀ c, out.getLast? = some c → isBlank c = false

namespace IsCleanup

theorem eq_nil (h : IsCleanup t out) (ht : visible t = []) : out = [] := by
  cases out with
  | nil => rfl
  | cons c r =>
    have hvisible := h.visible_eq
    rw [visible_cons (h.first c rfl), ht] at hvisible
    exact absurd hvisible (List.cons_ne_nil _ _)

/-- One character is all that is left of it and of the blanks around it. -/
theorem eq_singleton (h : IsCleanup t out) (ht : visible t = [a]) : out = [a] := by
  cases out with
  | nil => exact absurd (h.visible_eq.trans ht) (by simp)
  | cons c r =>
    have hvisible := h.visible_eq.trans ht
    rw [visible_cons (h.first c rfl)] at hvisible
    obtain ⟨rfl, hr⟩ := List.cons.inj hvisible
    cases r with
    | nil => rfl
    | cons d r =>
      have hne := List.cons_ne_nil d r
      have hlast := h.last _ (List.getLast?_eq_some_getLast (List.cons_ne_nil c (d :: r)))
      rw [List.getLast_cons hne] at hlast
      have hblank := List.all_eq_true.1 (visible_eq_nil_iff.1 hr) _ (List.getLast_mem hne)
      rw [hlast] at hblank
      exact absurd hblank Bool.false_ne_true

/-- Behind the first run of blanks stands the cleanup of what stood behind it. -/
theorem exists_eq_cons (h : IsCleanup (s ++ a :: (blanks ++ b :: r)) out)
    (hs : visible s = []) (ha : isBlank a = false) (hblanks : isAllBlank blanks = true)
    (hb : isBlank b = false) :
    ∃ rest, out = a :: (gapBetween a blanks b ++ b :: rest) ∧ IsCleanup (b :: r) (b :: rest) := by
  obtain ⟨front, rest, hout, hfront, hrest⟩ := h.between rfl ha hblanks hb
  have hnil : front = [] := by
    cases front with
    | nil => rfl
    | cons c f =>
      rw [visible_cons (h.first c (by rw [hout]; rfl)), hs] at hfront
      exact absurd hfront (List.cons_ne_nil _ _)
  subst hnil
  refine ⟨rest, hout, ⟨?_, ?_, ?_, ?_⟩⟩
  · rw [visible_cons hb, visible_cons hb, hrest]
  · intro s' a' blanks' b' r' hr ha' hblanks' hb'
    obtain ⟨front', rest', hout', hfront', hrest'⟩ := h.between
      (s := s ++ a :: (blanks ++ s')) (r := r') (by rw [hr]; simp) ha' hblanks' hb'
    have hbefore : visible front' = a :: visible s' := by
      rw [hfront', visible_append, hs, visible_cons ha, visible_append,
        visible_eq_nil_iff.2 hblanks, List.nil_append, List.nil_append]
    have hgap : visible (a :: gapBetween a blanks b) = [a] := by
      rw [visible_cons ha, visible_gapBetween]
    have hsame : (a :: gapBetween a blanks b) ++ b :: rest =
        front' ++ a' :: (gapBetween a' blanks' b' ++ b' :: rest') := by
      rw [← hout', hout]
      simp
    -- The neighbours do not stand further to the front than the second character.
    rcases List.append_eq_append_iff.1 hsame with ⟨front'', hfront'', hrest''⟩ | ⟨extra, hextra, hrest''⟩
    · refine ⟨front'', rest', hrest'', ?_, hrest'⟩
      rw [hfront'', visible_append, hgap, List.singleton_append] at hbefore
      exact (List.cons.inj hbefore).2
    · cases extra with
      | nil =>
        rw [List.append_nil] at hextra
        rw [← hextra, hgap] at hbefore
        exact ⟨[], rest', by simpa using hrest''.symm, (List.cons.inj hbefore).2, hrest'⟩
      | cons c extra =>
        obtain ⟨rfl, -⟩ := List.cons.inj hrest''
        rw [hextra, visible_append, hbefore, visible_cons ha'] at hgap
        simpa using congrArg List.length hgap
  · rintro c hc
    rw [← Option.some.inj hc]
    exact hb
  · intro c hc
    refine h.last c ?_
    rw [hout, List.nil_append, ← List.cons_append, List.getLast?_append, hc]
    rfl

/-- **A text has one cleanup.** The induction goes from one character that is kept to the next. -/
theorem unique (h : IsCleanup t out) (h' : IsCleanup t out') : out = out' := by
  induction hn : t.length using Nat.strongRecOn generalizing t out out' with
  | ind n ih =>
    subst hn
    by_cases ht : isAllBlank t = true
    · rw [h.eq_nil (visible_eq_nil_iff.2 ht), h'.eq_nil (visible_eq_nil_iff.2 ht)]
    · obtain ⟨a, u, hau, ha⟩ := exists_trimStart_eq_cons (by simpa using ht)
      have htext := takeWhile_append_trimStart t
      have hlead := visible_eq_nil_iff.2 (isAllBlank_takeWhile t)
      rw [hau] at htext
      by_cases hu : isAllBlank u = true
      · have hone : visible t = [a] := by
          rw [← htext, visible_append, hlead, visible_cons ha, visible_eq_nil_iff.2 hu,
            List.nil_append]
        rw [h.eq_singleton hone, h'.eq_singleton hone]
      · obtain ⟨b, r, hbr, hb⟩ := exists_trimStart_eq_cons (by simpa using hu)
        have hutext := takeWhile_append_trimStart u
        rw [hbr] at hutext
        have hlt : (b :: r).length < t.length := by
          rw [← htext, ← hutext]
          simp only [List.length_append, List.length_cons]
          omega
        rw [← htext, ← hutext] at h h'
        obtain ⟨rest, rfl, hrest⟩ := h.exists_eq_cons hlead ha (isAllBlank_takeWhile u) hb
        obtain ⟨rest', rfl, hrest'⟩ := h'.exists_eq_cons hlead ha (isAllBlank_takeWhile u) hb
        rw [ih _ hlt hrest hrest' rfl]

end IsCleanup

/-- A normal form that says anything starts and ends with characters of words. -/
theorem exists_normalize_eq (t : Text) : normalize t = [] ∨ ∃ c r d, normalize t = c :: r ∧
    isBlank c = false ∧ (c :: r).getLast? = some d ∧ isBlank d = false := by
  by_cases ht : isAllBlank (t.map halfWidth) = true
  · left
    rw [normalize_eq, trimStart_of_isAllBlank ht]
    rfl
  · right
    obtain ⟨_, c, r, d, -, heq, -, hc, hlast, hd⟩ := exists_squeeze_eq (by simpa using ht)
    exact ⟨c, r, d, by rw [normalize_eq, heq], hc, hlast, hd⟩

/-- The normal form of what ends with a character of a word ends with it. -/
theorem exists_normalize_concat (hc : isBlank (halfWidth c) = false) (s : Text) :
    ∃ front, normalize (s ++ [c]) = front ++ [halfWidth c] := by
  have hvisible := visible_normalize (s ++ [c])
  rw [List.map_append, visible_append, List.map_singleton, visible_cons hc, visible_nil] at hvisible
  rcases exists_normalize_eq (s ++ [c]) with hnil | ⟨_, _, d, hcons, -, hlast, hd⟩
  · rw [hnil] at hvisible
    exact absurd hvisible (by simp)
  · rw [← hcons] at hlast
    obtain ⟨front, hfront⟩ := List.getLast?_eq_some_iff.1 hlast
    rw [hfront, visible_append, visible_cons hd, visible_nil] at hvisible
    rw [List.singleton_inj.1 (List.append_inj' hvisible rfl).2] at hfront
    exact ⟨front, hfront⟩

/-- The normal form of what starts with a character of a word starts with it. -/
theorem exists_normalize_cons (hc : isBlank (halfWidth c) = false) (r : Text) :
    ∃ rest, normalize (c :: r) = halfWidth c :: rest := by
  have hvisible := visible_normalize (c :: r)
  rw [List.map_cons, visible_cons hc] at hvisible
  rcases exists_normalize_eq (c :: r) with hnil | ⟨d, rest, _, hcons, hd, -, -⟩
  · rw [hnil] at hvisible
    exact absurd hvisible (by simp)
  · rw [hcons, visible_cons hd] at hvisible
    rw [(List.cons.inj hvisible).1] at hcons
    exact ⟨rest, hcons⟩

theorem isCleanup_normalize (t : Text) : IsCleanup (t.map halfWidth) (normalize t) where
  visible_eq := visible_normalize t
  between := by
    intro s a blanks b r ht ha hblanks hb
    -- The pieces of the half-width text are those of the text.
    obtain ⟨s, u, rfl, rfl, hu⟩ := List.map_eq_append_iff.1 ht
    obtain ⟨c, v, rfl, rfl, hv⟩ := List.map_eq_cons_iff.1 hu
    obtain ⟨blanks, w, rfl, rfl, hw⟩ := List.map_eq_append_iff.1 hv
    obtain ⟨d, r, rfl, rfl, rfl⟩ := List.map_eq_cons_iff.1 hw
    obtain ⟨front, hfront⟩ := exists_normalize_concat ha s
    obtain ⟨rest, hrest⟩ := exists_normalize_cons hb r
    have hbefore := visible_normalize (s ++ [c])
    have hbehind := visible_normalize (d :: r)
    rw [hfront, visible_append, List.map_append, visible_append] at hbefore
    rw [hrest, List.map_cons, visible_cons hb, visible_cons hb] at hbehind
    refine ⟨front, rest, ?_, List.append_cancel_right hbefore, (List.cons.inj hbehind).2⟩
    rw [normalize_append_gap ha hb hblanks, hfront, hrest, List.append_assoc,
      List.singleton_append]
  first := by
    intro c hc
    rcases exists_normalize_eq t with hnil | ⟨d, r, _, hcons, hd, -, -⟩
    · simp [hnil] at hc
    · rw [hcons] at hc
      exact Option.some.inj hc ▸ hd
  last := by
    intro c hc
    rcases exists_normalize_eq t with hnil | ⟨_, _, d, hcons, -, hlast, hd⟩
    · simp [hnil] at hc
    · rw [hcons, hlast] at hc
      exact Option.some.inj hc ▸ hd

/-- **The normal form is the cleanup of the text in half-width form**, and nothing else is. -/
theorem isCleanup_iff_eq_normalize : IsCleanup (t.map halfWidth) out ↔ out = normalize t := by
  constructor
  · intro h
    exact h.unique (isCleanup_normalize t)
  · rintro rfl
    exact isCleanup_normalize t

end OpeningHours.Text
