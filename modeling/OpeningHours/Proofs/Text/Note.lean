import OpeningHours.Proofs.Text.NormalForm
import OpeningHours.Proofs.Text.Replacement
import OpeningHours.Proofs.Text.Words

/-!
# Notes are clean and stable

Whether a fragment says anything is decided on a copy without fillers, while its note is made from
the fragment itself. The two never disagree, because what is trimmed and collapsed on the way to the
note changes nothing about the decision (`saysNothing_trimBy`, `saysNothing_collapseBlanks`).

The reason is the order of the fillers. Those of several characters come first, and none of them
holds a character that is trimmed or collapsed, so they are removed on both sides of such a
character (**`saysNothing_append_cons`**). The others are single characters, and their removal is a
filter (`withoutFillers_eq`).

* `IsClean`: a text that can stand as a note;
* **`remainder?_clean`**: a note is clean and is its own note, and there is none exactly if nothing
  but blanks is left without fillers.
-/

namespace OpeningHours.Text

variable {c : Char} {r s t : Text}

/-! ## Fillers -/

/-- The fillers of several characters. -/
def wordFillers : List Text :=
  ["及び", "および", "ならびに", "のみ", "毎週", "曜日"].map String.toList

/-- The fillers of one character. -/
def markFillers : List Char :=
  "はとの・、。,/:;()[]「」【】&-~※ ".toList

theorem fillers_eq : fillers = wordFillers ++ markFillers.map fun c => [c] := rfl

theorem foldl_remove_singletons (cs : List Char) (t : Text) :
    cs.foldl (fun rest c => remove [c] rest) t = t.filter fun c => !cs.contains c := by
  induction cs generalizing t with
  | nil => simp
  | cons d cs ih =>
    rw [List.foldl_cons, ih, remove_singleton, List.filter_filter]
    refine List.filter_congr fun c _ => ?_
    rw [List.contains_cons, Bool.not_or, Bool.and_comm]
    rfl

/-- The text without the fillers of several characters. -/
def withoutWordFillers (t : Text) : Text :=
  wordFillers.foldl (fun rest w => remove w rest) t

theorem withoutFillers_eq (t : Text) :
    withoutFillers t = (withoutWordFillers t).filter fun c => !markFillers.contains c := by
  rw [withoutFillers, fillers_eq, List.foldl_append, List.foldl_map, foldl_remove_singletons,
    withoutWordFillers]

theorem foldl_remove_append_cons {ws : List Text} (hc : ∀ w ∈ ws, c ∉ w) (s t : Text) :
    ws.foldl (fun rest w => remove w rest) (s ++ c :: t) =
      ws.foldl (fun rest w => remove w rest) s ++
        c :: ws.foldl (fun rest w => remove w rest) t := by
  induction ws generalizing s t with
  | nil => rfl
  | cons w ws ih =>
    simp only [List.foldl_cons]
    rw [remove_append_cons (hc w List.mem_cons_self),
      ih fun v hv => hc v (List.mem_cons_of_mem w hv)]

/-! ## Trimming -/

/-- A trim takes characters of the class away from both ends. -/
theorem exists_trimBy_eq (p : Char → Bool) (t : Text) :
    ∃ s r, t = s ++ (trimBy p t ++ r) ∧ (∀ c ∈ s, p c = true) ∧ ∀ c ∈ r, p c = true := by
  refine ⟨t.takeWhile p, ((t.dropWhile p).reverse.takeWhile p).reverse, ?_, ?_, ?_⟩
  · rw [trimBy, trimEndBy_append, List.takeWhile_append_dropWhile]
  · exact fun c hc => List.all_eq_true.1 List.all_takeWhile c hc
  · exact fun c hc => List.all_eq_true.1 List.all_takeWhile c (List.mem_reverse.1 hc)

/-- The first character of a trimmed text is not of the class. -/
theorem not_of_head?_trimBy {p : Char → Bool} (h : (trimBy p t).head? = some c) : p c = false := by
  obtain ⟨u, hu⟩ := List.head?_eq_some_iff.1 h
  obtain ⟨v, hv⟩ : trimBy p t <+: t.dropWhile p := ⟨_, trimEndBy_append p _⟩
  have hdrop := List.head?_dropWhile_not p t
  rw [← hv, hu] at hdrop
  exact hdrop

/-! ## Margins -/

/-- The characters of lists that a note neither starts nor ends with. -/
def listSeparators : List Char :=
  [',', '/', '、', '・', ':', ';', '。']

theorem isNoteMargin_iff : isNoteMargin c = true ↔ isBlank c = true ∨ c ∈ listSeparators := by
  simp only [isNoteMargin, listSeparators, Bool.or_eq_true, beq_iff_eq, List.mem_cons,
    List.not_mem_nil, or_false]
  tauto

theorem not_isNoteMargin_iff : isNoteMargin c = false ↔ isBlank c = false ∧ c ∉ listSeparators := by
  rw [← Bool.not_eq_true, isNoteMargin_iff, not_or, Bool.not_eq_true]

theorem isNoteMargin_of_isBlank (hc : isBlank c = true) : isNoteMargin c = true :=
  isNoteMargin_iff.2 (.inl hc)

/-- No filler of several characters holds a character of the margins. -/
theorem not_mem_wordFillers (hc : isNoteMargin c = true) : ∀ w ∈ wordFillers, c ∉ w := by
  have hall : (wordFillers.all fun w => w.all fun c => !isNoteMargin c) = true := by decide
  intro w hw hmem
  have hnot := List.all_eq_true.1 (List.all_eq_true.1 hall w hw) c hmem
  rw [hc] at hnot
  exact Bool.false_ne_true hnot

/-- A character of the margins is blank or a filler. -/
theorem isBlank_or_mem_markFillers (hc : isNoteMargin c = true) :
    isBlank c = true ∨ c ∈ markFillers := by
  have hall : (listSeparators.all fun d => markFillers.contains d) = true := by decide
  refine (isNoteMargin_iff.1 hc).imp_right fun hmem => ?_
  exact List.contains_iff_mem.1 (List.all_eq_true.1 hall c hmem)

/-! ## Saying nothing -/

/-- Whether nothing but blanks is left of the text without fillers. -/
def saysNothing (t : Text) : Bool :=
  isAllBlank (withoutFillers t)

@[simp] theorem saysNothing_nil : saysNothing [] = true := by decide

/-- **A text with a character of the margins in it says nothing exactly if both sides say
nothing.** -/
theorem saysNothing_append_cons (hc : isNoteMargin c = true) (s t : Text) :
    saysNothing (s ++ c :: t) = (saysNothing s && saysNothing t) := by
  have hsplit : withoutWordFillers (s ++ c :: t) =
      withoutWordFillers s ++ c :: withoutWordFillers t :=
    foldl_remove_append_cons (not_mem_wordFillers hc) s t
  simp only [saysNothing, withoutFillers_eq, isAllBlank, hsplit, List.filter_append,
    List.all_append]
  congr 1
  -- The character is a filler itself, or it stays and is blank.
  by_cases hmark : c ∈ markFillers
  · rw [List.filter_cons_of_neg (by simpa using hmark)]
  · have hblank := (isBlank_or_mem_markFillers hc).resolve_right hmark
    rw [List.filter_cons_of_pos (by simpa using hmark), List.all_cons, hblank, Bool.true_and]

theorem saysNothing_cons (hc : isNoteMargin c = true) (t : Text) :
    saysNothing (c :: t) = saysNothing t := by
  have h := saysNothing_append_cons hc [] t
  rwa [List.nil_append, saysNothing_nil, Bool.true_and] at h

theorem saysNothing_margin_append (hs : ∀ c ∈ s, isNoteMargin c = true) (t : Text) :
    saysNothing (s ++ t) = saysNothing t := by
  induction s with
  | nil => rfl
  | cons c s ih =>
    obtain ⟨hc, hs⟩ := List.forall_mem_cons.1 hs
    rw [List.cons_append, saysNothing_cons hc, ih hs]

theorem saysNothing_append_margin (hr : ∀ c ∈ r, isNoteMargin c = true) (t : Text) :
    saysNothing (t ++ r) = saysNothing t := by
  cases r with
  | nil => rw [List.append_nil]
  | cons c r =>
    obtain ⟨hc, hr⟩ := List.forall_mem_cons.1 hr
    have hrest : saysNothing r = true := by
      have h := saysNothing_margin_append hr []
      rwa [List.append_nil, saysNothing_nil] at h
    rw [saysNothing_append_cons hc, hrest, Bool.and_true]

/-- **Trimming the margins changes nothing about what is said.** -/
theorem saysNothing_trimBy (t : Text) : saysNothing (trimBy isNoteMargin t) = saysNothing t := by
  obtain ⟨s, r, ht, hs, hr⟩ := exists_trimBy_eq isNoteMargin t
  calc saysNothing (trimBy isNoteMargin t)
      = saysNothing (trimBy isNoteMargin t ++ r) := (saysNothing_append_margin hr _).symm
    _ = saysNothing (s ++ (trimBy isNoteMargin t ++ r)) := (saysNothing_margin_append hs _).symm
    _ = saysNothing t := by rw [← ht]

/-- A text says nothing exactly if each of its words says nothing. -/
theorem saysNothing_eq_all_words (t : Text) : saysNothing t = (words t).all saysNothing := by
  have hword (w : Text) (hw : ∀ c ∈ w, isBlank c = false) :
      saysNothing w = (words w).all saysNothing := by
    by_cases hne : w = []
    · rw [hne]
      rfl
    · rw [words_of_isWord ⟨hne, hw⟩, List.all_cons, List.all_nil, Bool.and_true]
  induction t using cut_induction isBlank with
  | hpiece w hw => exact hword w hw
  | hcut w c r hw hc ih =>
    rw [saysNothing_append_cons (isNoteMargin_of_isBlank hc), words_append_cons hc,
      List.all_append, ih, hword w hw]

/-- **Collapsing blanks changes nothing about what is said.** -/
theorem saysNothing_collapseBlanks (t : Text) : saysNothing (collapseBlanks t) = saysNothing t := by
  rw [saysNothing_eq_all_words, words_collapseBlanks, ← saysNothing_eq_all_words]

/-! ## Notes -/

/-- A text that can stand as a note. -/
structure IsClean (r : Text) : Prop where
  ne_nil : r ≠ []
  first : ∀ c, r.head? = some c → isBlank c = false ∧ c ∉ listSeparators
  last : ∀ c, r.getLast? = some c → isBlank c = false ∧ c ∉ listSeparators
  blank : ∀ c ∈ r, isBlank c = true → c = ' '
  single : ¬ [' ', ' '] <:+: r

/-- A trimmed text collapses to a clean one, if that says anything. -/
theorem isClean_collapseBlanks (ht : saysNothing (collapseBlanks (trimBy isNoteMargin t)) = false) :
    IsClean (collapseBlanks (trimBy isNoteMargin t)) := by
  have hne : collapseBlanks (trimBy isNoteMargin t) ≠ [] := by
    intro hnil
    rw [hnil, saysNothing_nil] at ht
    exact Bool.false_ne_true ht.symm
  have hne' : trimBy isNoteMargin t ≠ [] := by
    intro hnil
    rw [hnil] at hne
    exact hne rfl
  refine ⟨hne, ?_, ?_, fun c hc => eq_space_of_mem_collapseBlanks hc,
    not_infix_collapseBlanks (by decide) (by decide)⟩
  · intro c hc
    obtain ⟨d, u, hdu⟩ := List.exists_cons_of_ne_nil hne'
    have hhead : (trimBy isNoteMargin t).head? = some d := by rw [hdu]; rfl
    have hd := not_isNoteMargin_iff.1 (not_of_head?_trimBy hhead)
    rw [head?_collapseBlanks hhead hd.1] at hc
    rwa [← Option.some.inj hc]
  · intro c hc
    have hlast := List.getLast?_eq_some_getLast hne'
    have hd := not_isNoteMargin_iff.1 (not_of_getLast?_trimEndBy hlast)
    rw [getLast?_collapseBlanks hlast hd.1] at hc
    rwa [← Option.some.inj hc]

/-- Nothing can be trimmed off a clean text. -/
theorem IsClean.trimBy_eq (hr : IsClean r) : trimBy isNoteMargin r = r := by
  obtain ⟨c, u, rfl⟩ := List.exists_cons_of_ne_nil hr.ne_nil
  have hlast := List.getLast?_eq_some_getLast hr.ne_nil
  exact trimBy_append (s := []) (by simp) (not_isNoteMargin_iff.2 (hr.first c rfl)) hlast
    (not_isNoteMargin_iff.2 (hr.last _ hlast))

theorem remainder?_eq_some_iff : remainder? t = some r ↔
    saysNothing t = false ∧ collapseBlanks (trimBy isNoteMargin t) = r := by
  change (if saysNothing t then none else some (collapseBlanks (trimBy isNoteMargin t))) = some r ↔ _
  cases saysNothing t <;> simp

/-- **Notes are clean and stable.** A note is not empty, has no blanks and no separators of lists at
its ends and no blanks but single spaces inside, and it is its own note. A text has no note exactly
if the removal of the fillers, one after another, leaves nothing but blanks. -/
theorem remainder?_clean (t : Text) :
    (∀ r, remainder? t = some r → IsClean r ∧ remainder? r = some r) ∧
      (remainder? t = none ↔
        isAllBlank (fillers.foldl (fun rest w => remove w rest) t) = true) := by
  constructor
  · intro r hr
    obtain ⟨hspeaks, rfl⟩ := remainder?_eq_some_iff.1 hr
    have hsame : saysNothing (collapseBlanks (trimBy isNoteMargin t)) = false := by
      rw [saysNothing_collapseBlanks, saysNothing_trimBy, hspeaks]
    have hclean := isClean_collapseBlanks hsame
    refine ⟨hclean, remainder?_eq_some_iff.2 ⟨hsame, ?_⟩⟩
    rw [hclean.trimBy_eq, collapseBlanks_collapseBlanks]
  · rw [remainder?]
    split
    · next hblank => exact ⟨fun _ => hblank, fun _ => rfl⟩
    · next hblank => exact ⟨fun h => absurd h (by simp), fun h => absurd h hblank⟩

/-- Marks at both ends, two kinds of blanks inside, and a filler that comes into being when another
one is removed. -/
theorem remainder?_clean_joined_fillers :
    let t : Text := "・ お及びよび、\u3000\n雨天 中止 。;".toList
    remainder? t = some "お及びよび、 雨天 中止".toList ∧ IsClean "お及びよび、 雨天 中止".toList := by
  intro t
  have hnote : remainder? t = some "お及びよび、 雨天 中止".toList := by decide
  exact ⟨hnote, ((remainder?_clean t).1 _ hnote).1⟩

end OpeningHours.Text
