import Mathlib.Data.List.Basic
import OpeningHours.Proofs.Text.Tidy
import OpeningHours.Text.WordCharacter

/-!
# The normal form of texts put together

The normal form is made by a trim at both ends of what the later steps make of the text (`squeeze`),
but only blanks in front of the first word have to be dropped: the later steps leave none at the end
(`normalize_eq`). So the normal form of a text that is put together can be read off its parts.

* **`normalize_line`**: a line break between two texts that say something stays, and each text gets
  its own normal form;
* **`normalize_append_cons`**: behind a text and perhaps one gap, what starts with a character of a
  word gets its own normal form;
* **`infix_normalize`**: a word stays as it is, and `not_mem_normalize`: no character outside ASCII
  comes in;
* **`normalize_normalize`**: a normal form is tidy, and so it is its own normal form.
-/

namespace OpeningHours.Text

variable {s t r w : Text} {c : Char} {gap : Option Char}

/-! ## Gaps -/

theorem eq_of_isGap (hc : isGap c = true) : c = ' ' ∨ c = '\n' := by
  simpa [isGap] using hc

theorem isBlank_of_isGap (hc : isGap c = true) : isBlank c = true := by
  rcases eq_of_isGap hc with rfl | rfl <;> decide

theorem not_isGap_of_not_isBlank (hc : isBlank c = false) : isGap c = false := by
  by_contra hgap
  rw [isBlank_of_isGap (by simpa using hgap)] at hc
  exact Bool.false_ne_true hc.symm

theorem isWordCharacter_gap (hc : isGap c = true) : isWordCharacter c = false := by
  rcases eq_of_isGap hc with rfl | rfl <;> decide +kernel

/-! ## Blanks in front -/

theorem takeWhile_append_trimStart (t : Text) : t.takeWhile isBlank ++ trimStart t = t :=
  List.takeWhile_append_dropWhile

theorem isAllBlank_takeWhile (t : Text) : isAllBlank (t.takeWhile isBlank) = true :=
  List.all_takeWhile

theorem trimStart_append_of_isAllBlank (hs : isAllBlank s = true) (r : Text) :
    trimStart (s ++ r) = trimStart r :=
  List.dropWhile_append_of_pos (List.all_eq_true.1 hs)

theorem trimStart_of_isAllBlank (ht : isAllBlank t = true) : trimStart t = [] := by
  simpa [trimStart] using trimStart_append_of_isAllBlank ht []

/-- A text that is not all blank starts with a character of a word, blanks in front aside. -/
theorem exists_trimStart_eq_cons (ht : isAllBlank t = false) :
    ∃ c r, trimStart t = c :: r ∧ isBlank c = false := by
  induction t with
  | nil => simp [isAllBlank] at ht
  | cons c t ih =>
    by_cases hc : isBlank c = true
    · rw [trimStart, List.dropWhile_cons_of_pos hc]
      exact ih (by simpa [isAllBlank, hc] using ht)
    · exact ⟨c, t, List.dropWhile_cons_of_neg hc, by simpa using hc⟩

theorem trimStart_append (hs : isAllBlank s = false) (r : Text) :
    trimStart (s ++ r) = trimStart s ++ r := by
  obtain ⟨c, u, hcu, -⟩ := exists_trimStart_eq_cons hs
  have hsome : (s.dropWhile isBlank).isEmpty = false := by
    change (trimStart s).isEmpty = false
    rw [hcu]
    rfl
  rw [trimStart, List.dropWhile_append, hsome, if_neg Bool.false_ne_true]
  rfl

theorem trim_of_isAllBlank (ht : isAllBlank t = true) : trim t = [] :=
  congrArg (trimEndBy isBlank) (trimStart_of_isAllBlank ht)

/-- Blanks behind a text are trimmed off. -/
theorem trim_append_of_isAllBlank (s : Text) (hr : isAllBlank r = true) : trim (s ++ r) = trim s := by
  by_cases hs : isAllBlank s = true
  · have hall : isAllBlank (s ++ r) = true := by
      rw [isAllBlank, List.all_append, Bool.and_eq_true]
      exact ⟨hs, hr⟩
    rw [trim_of_isAllBlank hs, trim_of_isAllBlank hall]
  · have hstart := trimStart_append (by simpa using hs) r
    have hreverse : ∀ c ∈ r.reverse, isBlank c = true :=
      fun c hc => List.all_eq_true.1 hr c (List.mem_reverse.1 hc)
    show trimEndBy isBlank (trimStart (s ++ r)) = trimEndBy isBlank (trimStart s)
    rw [hstart, trimEndBy, List.reverse_append, List.dropWhile_append_of_pos hreverse, trimEndBy]

/-! ## Runs of blanks -/

/-- What the run of blanks in front of a character has become behind it. -/
def gapAfter (gap : Option Char) (c : Char) : Option Char :=
  if isBlank c then some (joinGap gap c) else none

/-- What the run of blanks at the end of a text has become, where `gap` is what the run of blanks in
front of the text has become. -/
def pendingGap (gap : Option Char) (t : Text) : Option Char :=
  t.foldl gapAfter gap

theorem collapse_append (gap : Option Char) (s r : Text) :
    collapse gap (s ++ r) = collapse gap s ++ collapse (pendingGap gap s) r := by
  induction s generalizing gap with
  | nil => rfl
  | cons c s ih =>
    have hpending : pendingGap gap (c :: s) = pendingGap (gapAfter gap c) s := List.foldl_cons ..
    by_cases hc : isBlank c = true
    · rw [List.cons_append, collapse, collapse, hpending, gapAfter, if_pos hc, if_pos hc, if_pos hc,
        ih]
    · rw [List.cons_append, collapse, collapse, hpending, gapAfter, if_neg hc, if_neg hc, if_neg hc,
        ih, List.append_assoc, List.cons_append]

theorem collapse_cons (gap : Option Char) (hc : isBlank c = false) (r : Text) :
    collapse gap (c :: r) = gap.toList ++ c :: collapse none r := by
  rw [collapse, hc, if_neg Bool.false_ne_true]

/-- Nothing is written for a run of blanks before it ends. -/
theorem collapse_of_isAllBlank (gap : Option Char) (ht : isAllBlank t = true) :
    collapse gap t = [] := by
  induction t generalizing gap with
  | nil => rfl
  | cons c t ih =>
    obtain ⟨hc, ht⟩ := Bool.and_eq_true_iff.1 ht
    rw [collapse, if_pos hc, ih _ ht]

theorem isGap_joinGap (gap : Option Char) (c : Char) : isGap (joinGap gap c) = true := by
  rw [joinGap]
  split <;> rfl

theorem isGap_of_mem_pendingGap {d : Char} (hgap : ∀ e ∈ gap, isGap e = true)
    (hd : d ∈ pendingGap gap t) : isGap d = true := by
  induction t generalizing gap with
  | nil => exact hgap d hd
  | cons c t ih =>
    refine ih ?_ hd
    intro e he
    rw [gapAfter] at he
    split at he
    · rw [← Option.some.inj he]
      exact isGap_joinGap gap c
    · simp at he

/-- A run of blanks that holds a line break is one. -/
theorem pendingGap_line (ht : isAllBlank t = true) : pendingGap (some '\n') t = some '\n' := by
  induction t with
  | nil => rfl
  | cons c t ih =>
    obtain ⟨hc, ht⟩ := Bool.and_eq_true_iff.1 ht
    have hline : gapAfter (some '\n') c = some '\n' := by
      rw [gapAfter, if_pos hc, joinGap, if_pos (.inr rfl)]
    rw [pendingGap, List.foldl_cons, hline]
    exact ih ht

theorem not_isBlank_of_getLast?_collapse (h : (collapse gap t).getLast? = some c) :
    isBlank c = false := by
  induction t generalizing gap with
  | nil => simp [collapse] at h
  | cons d t ih =>
    rw [collapse] at h
    split at h
    · exact ih h
    · next hd =>
      rw [List.getLast?_append, List.getLast?_cons] at h
      cases hlast : (collapse none t).getLast? with
      | none =>
        obtain rfl : d = c := by simpa [hlast] using h
        simpa using hd
      | some e =>
        obtain rfl : e = c := by simpa [hlast] using h
        exact ih hlast

/-! ## List marks -/

theorem tighten_congr_before {before before' : Option Char}
    (hb : before.any isListMark = before'.any isListMark) (t : Text) :
    tighten before t = tighten before' t := by
  cases t with
  | nil => rfl
  | cons c t => rw [tighten, tighten, hb]

theorem tighten_append (hc : isListMark c = false) (before : Option Char) (s r : Text) :
    tighten before (s ++ c :: r) =
      tighten before s ++ tighten (s.getLast?.or before) (c :: r) := by
  induction s generalizing before with
  | nil => rfl
  | cons d s ih =>
    have hhead : (s ++ c :: r).head?.any isListMark = s.head?.any isListMark := by
      cases s with
      | nil => exact hc
      | cons e s => rfl
    rw [List.cons_append, tighten, tighten, hhead, getLast?_cons_or, ih]
    split <;> rfl

theorem getLast?_tighten {before : Option Char} (ht : t.getLast? = some c) (hc : c ≠ ' ') :
    (tighten before t).getLast? = some c := by
  induction t generalizing before with
  | nil => simp at ht
  | cons d t ih =>
    rw [tighten]
    cases t with
    | nil =>
      obtain rfl : d = c := by simpa using ht
      simp [hc, tighten]
    | cons e t =>
      have hlast : (tighten (some d) (e :: t)).getLast? = some c := ih (by simpa using ht)
      split
      · exact hlast
      · rw [List.getLast?_cons, hlast]
        rfl

/-! ## The normal form without a trim -/

/-- The normal form before the trim. -/
def squeeze (t : Text) : Text :=
  tighten none (collapse none (t.map halfWidth))

/-- A trim takes away what stands in front of the first character that stays. -/
theorem trimBy_append {p : Char → Bool} {d : Char} (hs : ∀ e ∈ s, p e = true) (hc : p c = false)
    (hlast : (c :: r).getLast? = some d) (hd : p d = false) : trimBy p (s ++ c :: r) = c :: r := by
  obtain ⟨u, hu⟩ := List.getLast?_eq_some_iff.1 hlast
  have hreverse : (c :: r).reverse = d :: u.reverse := by rw [hu, List.reverse_append]; rfl
  rw [trimBy, List.dropWhile_append_of_pos hs, List.dropWhile_cons_of_neg (by simp [hc]), trimEndBy,
    hreverse, List.dropWhile_cons_of_neg (by simp [hd]), ← hreverse, List.reverse_reverse]

/-- Blanks in front leave at most one gap in front of what they stand in front of. -/
theorem tighten_gap (hgap : ∀ d ∈ gap, isGap d = true) (c : Char) (r : Text) :
    ∃ front, (∀ d ∈ front, isGap d = true) ∧
      tighten none (gap.toList ++ c :: r) = front ++ tighten none (c :: r) := by
  cases gap with
  | none => exact ⟨[], by simp, rfl⟩
  | some d =>
    have hd := hgap d rfl
    have hsame : tighten (some d) (c :: r) = tighten none (c :: r) := by
      refine tighten_congr_before ?_ _
      rcases eq_of_isGap hd with rfl | rfl <;> rfl
    show ∃ front, _ ∧ tighten none (d :: c :: r) = _
    rw [tighten, hsame]
    split
    · exact ⟨[], by simp, rfl⟩
    · exact ⟨[d], by simpa using hd, rfl⟩

/-- A text of blanks is squeezed to nothing. -/
theorem squeeze_of_isAllBlank (ht : isAllBlank (t.map halfWidth) = true) : squeeze t = [] := by
  rw [squeeze, collapse_of_isAllBlank none ht]
  rfl

/-- Before the trim there is perhaps a gap in front of what starts and ends with characters of
words. -/
theorem exists_squeeze_eq (ht : isAllBlank (t.map halfWidth) = false) :
    ∃ front c r d, squeeze t = front ++ c :: r ∧
      tighten none (collapse none (trimStart (t.map halfWidth))) = c :: r ∧
      (∀ e ∈ front, isGap e = true) ∧ isBlank c = false ∧
      (c :: r).getLast? = some d ∧ isBlank d = false := by
  rw [squeeze]
  generalize t.map halfWidth = u at ht ⊢
  have hfront := isAllBlank_takeWhile u
  obtain ⟨c, r, hcr, hc⟩ := exists_trimStart_eq_cons ht
  have hgap : ∀ d ∈ pendingGap none (u.takeWhile isBlank), isGap d = true :=
    fun d hd => isGap_of_mem_pendingGap (by simp) hd
  have hcne : c ≠ ' ' := by
    rintro rfl
    exact absurd hc (by decide)
  obtain ⟨front, hall, htighten⟩ := tighten_gap hgap c (collapse none r)
  have hcollapse : collapse none u =
      (pendingGap none (u.takeWhile isBlank)).toList ++ c :: collapse none r := by
    conv_lhs => rw [← takeWhile_append_trimStart u]
    rw [collapse_append, collapse_of_isAllBlank none hfront, hcr, collapse_cons _ hc,
      List.nil_append]
  have hword : collapse none (c :: r) = c :: collapse none r := collapse_cons none hc r
  obtain ⟨d, hd⟩ : ∃ d, (c :: collapse none r).getLast? = some d :=
    Option.isSome_iff_exists.1 (by simp)
  have hdlast : (collapse none (c :: r)).getLast? = some d := by rw [hword, hd]
  have hdblank : isBlank d = false := not_isBlank_of_getLast?_collapse hdlast
  have hdne : d ≠ ' ' := by
    rintro rfl
    exact absurd hdblank (by decide)
  have hlast : (tighten none (c :: collapse none r)).getLast? = some d := getLast?_tighten hd hdne
  rw [tighten_cons_of_ne none hcne] at hlast htighten
  refine ⟨front, c, tighten (some c) (collapse none r), d, ?_, ?_, hall, hc, hlast, hdblank⟩
  · rw [hcollapse, htighten]
  · rw [hcr, hword, tighten_cons_of_ne none hcne]

/-- **The normal form is made without a trim** once the blanks in front are dropped. -/
theorem normalize_eq (t : Text) :
    normalize t = tighten none (collapse none (trimStart (t.map halfWidth))) := by
  show trimBy isGap (squeeze t) = _
  by_cases ht : isAllBlank (t.map halfWidth) = true
  · rw [squeeze_of_isAllBlank ht, trimStart_of_isAllBlank ht]
    rfl
  · obtain ⟨front, c, r, d, hsqueeze, heq, hfront, hc, hlast, hd⟩ :=
      exists_squeeze_eq (Bool.not_eq_true _ ▸ ht)
    rw [hsqueeze, heq]
    exact trimBy_append hfront (not_isGap_of_not_isBlank hc) hlast (not_isGap_of_not_isBlank hd)

/-- The trim takes away all blanks at the ends. -/
theorem trim_squeeze (t : Text) : trim (squeeze t) = normalize t := by
  rw [normalize_eq]
  by_cases ht : isAllBlank (t.map halfWidth) = true
  · rw [squeeze_of_isAllBlank ht, trimStart_of_isAllBlank ht]
    rfl
  · obtain ⟨front, c, r, d, hsqueeze, heq, hfront, hc, hlast, hd⟩ :=
      exists_squeeze_eq (Bool.not_eq_true _ ▸ ht)
    rw [hsqueeze, heq]
    exact trimBy_append (fun e he => isBlank_of_isGap (hfront e he)) hc hlast hd

/-- There are no blanks at the ends of a normal form. -/
theorem trim_normalize (t : Text) : trim (normalize t) = normalize t := by
  rw [normalize_eq]
  by_cases ht : isAllBlank (t.map halfWidth) = true
  · rw [trimStart_of_isAllBlank ht]
    rfl
  · obtain ⟨front, c, r, d, -, heq, -, hc, hlast, hd⟩ :=
      exists_squeeze_eq (Bool.not_eq_true _ ▸ ht)
    rw [heq]
    exact trimBy_append (s := []) (by simp) hc hlast hd

/-! ## Parts of a text -/

/-- A text of blanks says nothing. -/
theorem not_isAllBlank_of_normalize_ne_nil (ht : normalize t ≠ []) :
    isAllBlank (t.map halfWidth) = false := by
  by_contra hblank
  refine ht ?_
  rw [normalize_eq, trimStart_of_isAllBlank (by simpa using hblank)]
  rfl

/-- **A line break between two texts stays**, if both say something. -/
theorem normalize_line {a b : Text} (ha : normalize a ≠ []) (hb : normalize b ≠ []) :
    normalize (a ++ '\n' :: b) = normalize a ++ '\n' :: normalize b := by
  obtain ⟨c, r, hcr, hc⟩ := exists_trimStart_eq_cons (not_isAllBlank_of_normalize_ne_nil hb)
  have hblanks := isAllBlank_takeWhile (b.map halfWidth)
  have hline (gap : Option Char) : collapse gap ('\n' :: b.map halfWidth) =
      '\n' :: collapse none (trimStart (b.map halfWidth)) := by
    have hgap : joinGap gap '\n' = '\n' := if_pos (.inl rfl)
    rw [collapse, if_pos (by decide), hgap, ← takeWhile_append_trimStart (b.map halfWidth),
      collapse_append, collapse_of_isAllBlank _ hblanks, pendingGap_line hblanks,
      takeWhile_append_trimStart, hcr, collapse_cons _ hc, collapse_cons _ hc]
    rfl
  have hbreak : (a ++ '\n' :: b).map halfWidth = a.map halfWidth ++ '\n' :: b.map halfWidth := by
    rw [List.map_append, List.map_cons]
    rfl
  have hbefore : tighten (some '\n') (collapse none (trimStart (b.map halfWidth))) =
      tighten none (collapse none (trimStart (b.map halfWidth))) :=
    tighten_congr_before (by decide) _
  rw [normalize_eq, normalize_eq a, normalize_eq b, hbreak,
    trimStart_append (not_isAllBlank_of_normalize_ne_nil ha), collapse_append, hline,
    tighten_append (by decide), tighten_cons_of_ne _ (by decide), hbefore]

/-- **What starts with a character of a word gets its own normal form** behind a text and perhaps
one gap. -/
theorem normalize_append_cons (hword : isWordPart c = true) (hmark : isListMark c = false)
    (a b : Text) : ∃ gap : Option Char, (∀ d ∈ gap, isGap d = true) ∧
      normalize (a ++ c :: b) = normalize a ++ (gap.toList ++ normalize (c :: b)) := by
  have hc := not_isBlank_of_isWordPart hword
  have hcne : c ≠ ' ' := by
    rintro rfl
    exact absurd hc (by decide)
  have htext : (a ++ c :: b).map halfWidth = a.map halfWidth ++ c :: b.map halfWidth := by
    rw [List.map_append, List.map_cons, halfWidth_of_isWordPart hword]
  have htrim : trimStart (c :: b.map halfWidth) = c :: b.map halfWidth :=
    List.dropWhile_cons_of_neg (by simp [hc])
  have hbehind (before : Option Char) : normalize (c :: b) =
      tighten before (c :: collapse none (b.map halfWidth)) := by
    rw [normalize_eq, List.map_cons, halfWidth_of_isWordPart hword, htrim, collapse_cons _ hc,
      Option.toList_none, List.nil_append, tighten_cons_of_ne _ hcne, tighten_cons_of_ne _ hcne]
  by_cases ha : isAllBlank (a.map halfWidth) = true
  · refine ⟨none, by simp, ?_⟩
    have hnil : normalize a = [] := by
      rw [normalize_eq, trimStart_of_isAllBlank ha]
      rfl
    rw [hnil, normalize_eq, htext, trimStart_append_of_isAllBlank ha, htrim, collapse_cons _ hc,
      hbehind none]
    rfl
  · have hpending : ∀ d ∈ pendingGap none (trimStart (a.map halfWidth)), isGap d = true :=
      fun d hd => isGap_of_mem_pendingGap (by simp) hd
    rw [normalize_eq, htext, trimStart_append (by simpa using ha), collapse_append,
      collapse_cons _ hc, ← List.append_assoc, tighten_append hmark, ← hbehind, normalize_eq a]
    cases hgap : pendingGap none (trimStart (a.map halfWidth)) with
    | none => exact ⟨none, by simp, by simp⟩
    | some d =>
      have hd := hpending d hgap
      have hdmark : isListMark d = false := by
        rcases eq_of_isGap hd with rfl | rfl <;> rfl
      rw [Option.toList_some, tighten_append hdmark, tighten, List.append_assoc]
      split
      · exact ⟨none, by simp, rfl⟩
      · exact ⟨some d, by simpa using hd, rfl⟩

/-- A word at the start stays as it is. -/
theorem normalize_word_append (hne : w ≠ []) (hw : ∀ c ∈ w, isWordPart c = true) (r : Text) :
    normalize (w ++ r) = w ++ tighten w.getLast? (collapse none (r.map halfWidth)) := by
  obtain ⟨c, v, rfl⟩ := List.exists_cons_of_ne_nil hne
  have hc := not_isBlank_of_isWordPart (hw c List.mem_cons_self)
  have hstart : trimStart (c :: v ++ r.map halfWidth) = c :: v ++ r.map halfWidth :=
    List.dropWhile_cons_of_neg (by simp [hc])
  rw [normalize_eq, List.map_append, map_halfWidth_of_isWordPart hw, hstart, collapse_word hw,
    tighten_word hw, Option.or_none]

/-- A character of a word in front of a text stays, and keeps the gap behind it. -/
theorem normalize_cons (hword : isWordPart c = true) (hmark : isListMark c = false) (t : Text) :
    normalize (c :: t) = c :: squeeze t := by
  have hcons := normalize_word_append (w := [c]) (by simp) (by simpa using hword) t
  have hbefore : tighten (some c) (collapse none (t.map halfWidth)) = squeeze t :=
    tighten_congr_before (by simpa using hmark) _
  rw [← hbefore]
  exact hcons

/-- **A word stays as it is.** -/
theorem infix_normalize (hne : w ≠ []) (hw : ∀ c ∈ w, isWordPart c = true)
    (hmark : ∀ c ∈ w, isListMark c = false) (ht : w <:+: t) : w <:+: normalize t := by
  obtain ⟨s, r, rfl⟩ := ht
  obtain ⟨c, v, rfl⟩ := List.exists_cons_of_ne_nil hne
  obtain ⟨gap, -, hnormal⟩ := normalize_append_cons (hw c List.mem_cons_self)
    (hmark c List.mem_cons_self) s (v ++ r)
  rw [List.append_assoc, List.cons_append, hnormal, ← List.cons_append,
    normalize_word_append (List.cons_ne_nil c v) hw]
  have hfront := List.prefix_append (c :: v) (tighten (c :: v).getLast?
    (collapse none (r.map halfWidth)))
  exact (hfront.isInfix.trans (List.suffix_append gap.toList _).isInfix).trans
    (List.suffix_append (normalize s) _).isInfix

/-! ## Characters of the normal form -/

theorem trimBy_sublist (p : Char → Bool) (t : Text) : (trimBy p t).Sublist t := by
  have hend := (List.dropWhile_sublist p (l := (t.dropWhile p).reverse)).reverse
  rw [List.reverse_reverse] at hend
  exact hend.trans (List.dropWhile_sublist p)

theorem tighten_sublist (before : Option Char) (t : Text) : (tighten before t).Sublist t := by
  induction t generalizing before with
  | nil => exact List.Sublist.refl _
  | cons c t ih =>
    rw [tighten]
    split
    · exact (ih _).cons c
    · exact (ih _).cons_cons c

/-- Collapsing makes no character but spaces. -/
theorem mem_collapse (hgap : ∀ d ∈ gap, d = ' ' ∨ d ∈ s) (ht : t ⊆ s) (hc : c ∈ collapse gap t) :
    c = ' ' ∨ c ∈ s := by
  induction t generalizing gap with
  | nil => simp [collapse] at hc
  | cons d t ih =>
    obtain ⟨hd, ht⟩ := List.cons_subset.1 ht
    rw [collapse] at hc
    split at hc
    · refine ih (fun e he => ?_) ht hc
      obtain rfl := Option.some.inj he
      rw [joinGap]
      split
      · next hline =>
        rcases hline with rfl | rfl
        · exact .inr hd
        · exact hgap _ rfl
      · exact .inl rfl
    · rcases List.mem_append.1 hc with hc | hc
      · exact hgap c (Option.mem_toList.1 hc)
      · rcases List.mem_cons.1 hc with rfl | hc
        · exact .inr hd
        · exact ih (by simp) ht hc

/-- The text before the trim has no characters but spaces and those of the text. -/
theorem mem_squeeze (hc : c ∈ squeeze t) : c = ' ' ∨ c ∈ t.map halfWidth :=
  mem_collapse (by simp) (List.Subset.refl _) ((tighten_sublist none _).subset hc)

/-- Only ASCII characters are half-width forms of others. -/
theorem halfWidth_eq_or (c : Char) : halfWidth c = c ∨ (halfWidth c).toNat ≤ 0x7F := by
  have hascii : ∀ n : Fin 0x80, (Char.ofNat n).toNat ≤ 0x7F := by decide
  rw [halfWidth]
  split
  · exact .inr (by decide)
  split
  · exact .inr (by decide)
  split
  · next hn => exact .inr (hascii ⟨c.toNat - 0xFEE0, by omega⟩)
  · exact .inl rfl

theorem eq_of_halfWidth_eq {d : Char} (hd : halfWidth d = c) (hc : 0x7F < c.toNat) : d = c := by
  rcases halfWidth_eq_or d with h | h
  · exact h.symm.trans hd
  · rw [hd] at h
    omega

/-- **No character outside ASCII comes into the normal form.** -/
theorem not_mem_normalize (hc : 0x7F < c.toNat) (ht : c ∉ t) : c ∉ normalize t := by
  intro hmem
  rcases mem_squeeze ((trimBy_sublist isGap _).subset hmem) with rfl | hmap
  · exact absurd hc (by decide)
  · obtain ⟨d, hd, hdc⟩ := List.mem_map.1 hmap
    rw [eq_of_halfWidth_eq hdc hc] at hd
    exact ht hd

/-! ## Normal forms are tidy -/

theorem halfWidth_halfWidth (c : Char) : halfWidth (halfWidth c) = halfWidth c := by
  rcases halfWidth_eq_or c with h | h
  · rw [h, h]
  · exact halfWidth_of_lt (by omega)

/-- A character of half-width form that is not blank may stand in a word. -/
theorem isWordPart_of_not_isBlank (hblank : isBlank c = false) (hc : halfWidth c = c) :
    isWordPart c = true := by
  rw [isWordPart, hblank, hc]
  simp

/-- What the later steps make of characters in half-width form keeps a text tidy that they stand
behind. The text grows by one word character, or by a gap and one, so the induction is on the
characters that are still to come. -/
theorem Tidy.append_tighten_collapse (ht : Tidy t) (hr : ∀ c ∈ r, halfWidth c = c)
    (hgap : ∀ d ∈ gap, isGap d = true) :
    Tidy (t ++ Text.tighten t.getLast? (Text.collapse gap r)) := by
  induction r generalizing t gap with
  | nil => simpa [Text.collapse, Text.tighten] using ht
  | cons c r ih =>
    obtain ⟨hc, hr⟩ := List.forall_mem_cons.1 hr
    by_cases hblank : isBlank c = true
    · rw [Text.collapse, if_pos hblank]
      refine ih ht hr ?_
      intro d hd
      rw [← Option.some.inj hd]
      exact isGap_joinGap gap c
    · have hword := isWordPart_of_not_isBlank (by simpa using hblank) hc
      have hcne : c ≠ ' ' := by
        rintro rfl
        exact hblank (by decide)
      have hcTidy : Tidy [c] := .word (by simp) (by simpa using hword)
      -- Whatever tidy text ends in `c`, the rest is read behind it.
      have hbehind {u : Text} (hu : Tidy (u ++ [c])) :
          Tidy (u ++ c :: Text.tighten (some c) (Text.collapse none r)) := by
        have hnext : Tidy (u ++ [c] ++
            Text.tighten (u ++ [c]).getLast? (Text.collapse none r)) := ih hu hr (by simp)
        rwa [List.getLast?_concat, List.append_assoc] at hnext
      rw [collapse_cons gap (by simpa using hblank)]
      cases gap with
      | none =>
        rw [Option.toList_none, List.nil_append, tighten_cons_of_ne _ hcne]
        exact hbehind (ht.append hcTidy)
      | some d =>
        rw [Option.toList_some, List.singleton_append]
        rcases eq_of_isGap (hgap d rfl) with rfl | rfl
        · rw [Text.tighten, tighten_cons_of_ne _ hcne]
          split
          · exact hbehind (ht.append hcTidy)
          · next hstay =>
            simp only [true_and, not_or, Bool.not_eq_true, List.head?_cons] at hstay
            have hspace := ht.space hcTidy hstay.1 hstay.2
            have hrest := hbehind (u := t ++ [' ']) (by simpa using hspace)
            simpa using hrest
        · rw [tighten_cons_of_ne _ (by decide), tighten_cons_of_ne _ hcne]
          have hline := ht.line hcTidy
          have hrest := hbehind (u := t ++ ['\n']) (by simpa using hline)
          simpa using hrest

/-- **A normal form is tidy** if it says anything. -/
theorem tidy_normalize (ht : normalize t ≠ []) : Tidy (normalize t) := by
  obtain ⟨c, r, hcr, hc⟩ := exists_trimStart_eq_cons (not_isAllBlank_of_normalize_ne_nil ht)
  have hhalf : ∀ d ∈ c :: r, halfWidth d = d := by
    intro d hd
    rw [← hcr] at hd
    obtain ⟨e, -, rfl⟩ := List.mem_map.1 ((List.dropWhile_sublist _).subset hd)
    exact halfWidth_halfWidth e
  obtain ⟨hchalf, hr⟩ := List.forall_mem_cons.1 hhalf
  have hcne : c ≠ ' ' := by
    rintro rfl
    exact absurd hc (by decide)
  have hword : Tidy [c] := .word (by simp) (by simpa using isWordPart_of_not_isBlank hc hchalf)
  rw [normalize_eq, hcr, collapse_cons none hc, Option.toList_none, List.nil_append,
    tighten_cons_of_ne none hcne]
  exact hword.append_tighten_collapse hr (by simp)

/-- **Making the normal form of a normal form changes nothing.** -/
theorem normalize_normalize (t : Text) : normalize (normalize t) = normalize t := by
  by_cases ht : normalize t = []
  · rw [ht, normalize_nil]
  · exact (tidy_normalize ht).normalize

end OpeningHours.Text
