import Mathlib.Data.List.Basic
import OpeningHours.Proofs.Pattern.Continued

/-!
# How far a pattern looks ahead

The hits of a text may hang on what follows the text: a part that has not been there might come
next. Where every attempt to match has failed or stopped before the end of the text, nothing that
follows changes them. Whether it is so can be found out by trying.

* `reachesEnd` — an attempt to match comes to the end of the text; **`settled_of_reachesEnd`**: if
  none does, the hits stay as they are whatever follows;
* `settles` — one more character behind a word settles how the word is scanned;
  **`goesOn_of_settles`**: then the word is scanned as if it stood alone;
* `ListOf marks words t` — the text is a list of some of the words, a mark between neighbours;
* **`ListOf.foldl_blankOut`**: where the marks separate the words, blanking out hits in a list is
  blanking them out in each of its words.
-/

namespace OpeningHours

open Text

theorem Hit.map_extend_nil (hs : List Hit) : hs.map (Hit.extend []) = hs := by
  have hid : Hit.extend [] = id := funext fun h => by simp [Hit.extend]
  rw [hid, List.map_id]

namespace Pattern

variable {p : Pattern} {before before' : Option Char} {c : Char} {r t w : Text} {marks : List Char}
  {words : List Text}

/-! ## Attempts that come to the end -/

/-- Whether a repetition of `step` comes to the end of the text, within `n` repetitions. -/
def reachesEndMany (step : Text → List Hit) (reaches : Text → Bool) : Nat → Text → Bool
  | 0, _ => true
  | n + 1, t =>
    reaches t || (step t).any fun h => !h.taken.isEmpty && reachesEndMany step reaches n h.rest

/-- Whether an attempt to match at the start of the text comes to its end. A pattern that looks
around is taken to do so. -/
def reachesEnd : Pattern → Text → Bool
  | .empty, _ => false
  | .one _, t => t.isEmpty
  | .seq p q, t => p.reachesEnd t || (p.hits none t).any fun h => q.reachesEnd h.rest
  | .alt p q, t => p.reachesEnd t || q.reachesEnd t
  | .star p, t => reachesEndMany (p.hits none) p.reachesEnd t.length t
  | .keep _ p, t => p.reachesEnd t
  | .atStart, _ => true
  | .atEnd, _ => true
  | .atWordEdge, _ => true

/-- Nothing in front of the text or behind it changes its hits. -/
def Settled (p : Pattern) (t : Text) : Prop :=
  ∀ before r, p.hits before (t ++ r) = (p.hits none t).map (Hit.extend r)

theorem Settled.hits_eq (ht : p.Settled t) (before : Option Char) :
    p.hits before t = p.hits none t := by
  have hsame := ht before []
  rwa [List.append_nil, Hit.map_extend_nil] at hsame

theorem Settled.hits_append (ht : p.Settled t) (before before' : Option Char) (r : Text) :
    p.hits before (t ++ r) = (p.hits before' t).map (Hit.extend r) := by
  rw [ht before r, ht.hits_eq before']

theorem settled_of_reachesEndMany (hp : ∀ t, p.reachesEnd t = false → p.Settled t) {m : Nat}
    (ht : reachesEndMany (p.hits none) p.reachesEnd m t = false) (n : Nat)
    (before before' : Option Char) (r : Text) :
    hitsMany p.hits n before (t ++ r) = (hitsMany p.hits n before' t).map (Hit.extend r) := by
  induction n generalizing m t before before' with
  | zero => rfl
  | succ n ih =>
    cases m with
    | zero => exact absurd ht (by simp [reachesEndMany])
    | succ m =>
      rw [reachesEndMany, Bool.or_eq_false_iff, List.any_eq_false] at ht
      obtain ⟨hstop, hmore⟩ := ht
      have hfirst := hp t hstop
      rw [hitsMany, hitsMany, hfirst before r, hfirst.hits_eq before', List.filter_map,
        List.flatMap_map, List.map_append, List.map_flatMap]
      congr 1
      refine List.flatMap_congr fun h hh => ?_
      obtain ⟨hmem, hne⟩ := List.mem_filter.1 hh
      have hrest : reachesEndMany (p.hits none) p.reachesEnd m h.rest = false := by
        have hnone := hmore h hmem
        rw [Bool.and_eq_true, not_and, Bool.not_eq_true] at hnone
        exact hnone hne
      show (hitsMany p.hits n (h.lastTaken before) (h.rest ++ r)).map _ = _
      rw [ih hrest _ (h.lastTaken before'), List.map_map, List.map_map]
      rfl

/-- **Where no attempt comes to the end of the text, its hits hang on nothing around it.** -/
theorem settled_of_reachesEnd (ht : p.reachesEnd t = false) : p.Settled t := by
  induction p generalizing t with
  | empty => exact fun before r => rfl
  | one accept =>
    intro before r
    cases t with
    | nil => exact absurd ht (by simp [reachesEnd])
    | cons c t => by_cases hc : accept c = true <;> simp [hits, hc, Hit.extend]
  | seq p q ihp ihq =>
    intro before r
    rw [reachesEnd, Bool.or_eq_false_iff, List.any_eq_false] at ht
    obtain ⟨hp, hq⟩ := ht
    rw [hits, hits, ihp hp before r, List.flatMap_map, List.map_flatMap]
    refine List.flatMap_congr fun h hh => ?_
    have hrest : q.Settled h.rest := ihq (by simpa using hq h hh)
    show (q.hits (h.lastTaken before) (h.rest ++ r)).map _ = _
    rw [hrest.hits_append _ (h.lastTaken none), List.map_map, List.map_map]
    rfl
  | alt p q ihp ihq =>
    intro before r
    rw [reachesEnd, Bool.or_eq_false_iff] at ht
    rw [hits, hits, ihp ht.1, ihq ht.2, List.map_append]
  | star p ih =>
    intro before r
    have hlen : t.length ≤ (t ++ r).length := by simp
    rw [← hitsMany_eq_of_le p none hlen]
    exact settled_of_reachesEndMany (fun t ht => ih ht) ht _ before none r
  | keep slot p ih =>
    intro before r
    rw [hits, hits, ih ht, List.map_map, List.map_map]
    rfl
  | atStart => exact absurd ht (by simp [reachesEnd])
  | atEnd => exact absurd ht (by simp [reachesEnd])
  | atWordEdge => exact absurd ht (by simp [reachesEnd])

/-! ## One character ahead -/

/-- Whether one character behind the text settles how the text is scanned, in at most `n` places.
Only where a hit may start there is something to settle. -/
def settlesFrom (p : Pattern) (c : Char) : Nat → Option Char → Text → Bool
  | 0, _, t => t.isEmpty
  | _ + 1, _, [] => true
  | n + 1, before, d :: t =>
    if !p.mayStart d then p.settlesFrom c n (some d) t
    else
      !p.reachesEnd (d :: t ++ [c]) &&
        p.first? before (d :: t ++ [c]) == (p.first? before (d :: t)).map (Hit.extend [c]) &&
        match p.first? before (d :: t) with
        | none => p.settlesFrom c n (some d) t
        | some h => p.settlesFrom c n (h.lastTaken before) h.rest

/-- Whether one character behind a word settles how the word is scanned. -/
def settles (p : Pattern) (c : Char) (w : Text) : Bool :=
  p.settlesFrom c w.length none w

theorem Settled.first?_append (ht : p.Settled t) (before : Option Char) (r : Text) :
    p.first? before (t ++ r) = (p.first? before t).map (Hit.extend r) := by
  rw [first?, first?, ht.hits_append before before r, List.find?_map]
  rfl

theorem goesOn_of_settlesFrom {n : Nat} (ht : p.settlesFrom c n before t = true) (r : Text) :
    p.GoesOn (c :: r) before t := by
  induction n generalizing before t with
  | zero =>
    obtain rfl : t = [] := List.isEmpty_iff.1 ht
    exact .nil
  | succ n ih =>
    cases t with
    | nil => exact .nil
    | cons d t =>
      rw [settlesFrom] at ht
      split at ht
      · next hd =>
        have hnone := first?_of_mayStart (by simpa using hd) before (p := p)
        exact .loose (hnone t) (hnone _) (ih ht)
      · rw [Bool.and_eq_true, Bool.and_eq_true, Bool.not_eq_true', beq_iff_eq] at ht
        obtain ⟨⟨hsettled, hsame⟩, hgo⟩ := ht
        have hlonger := (settled_of_reachesEnd hsettled).first?_append before r
        rw [hsame, List.append_assoc, Option.map_map] at hlonger
        cases hfirst : p.first? before (d :: t) with
        | none =>
          rw [hfirst] at hlonger hgo
          exact .loose hfirst hlonger (ih hgo)
        | some h =>
          rw [hfirst] at hlonger hgo
          have hextend : Hit.extend r (Hit.extend [c] h) = h.extend (c :: r) := by
            simp [Hit.extend]
          exact .hit hfirst (hlonger.trans (congrArg some hextend)) (ih hgo)

/-- **A character that settles a word lets it be scanned as if it stood alone.** -/
theorem goesOn_of_settles (hw : p.settles c w = true) (r : Text) : p.GoesOn (c :: r) none w :=
  goesOn_of_settlesFrom hw r

/-! ## Words between marks -/

/-- Whether each of the marks starts no hit and settles how each of the words is scanned. -/
def separates (p : Pattern) (marks : List Char) (words : List Text) : Bool :=
  p.ignoresStart && marks.all fun c =>
    !isWordCharacter c && !p.mayStart c && words.all fun w => p.settles c w

/-- The words with the hits of one pattern after another blanked out, if the marks separate them
each time. -/
def blankedWords? (marks : List Char) : List Pattern → List Text → Option (List Text)
  | [], words => some words
  | p :: ps, words =>
    if p.separates marks words then blankedWords? marks ps (words.map p.blankOut) else none

/-- Between a word and what follows, a mark that separates the words keeps hits apart. -/
theorem blankOut_append_mark (hp : p.separates marks words = true) (hw : w ∈ words) (hc : c ∈ marks)
    (r : Text) : p.blankOut (w ++ c :: r) = p.blankOut w ++ c :: p.blankOut r := by
  rw [separates, Bool.and_eq_true] at hp
  obtain ⟨hstart, hmarks⟩ := hp
  have hmark := List.all_eq_true.1 hmarks c hc
  rw [Bool.and_eq_true, Bool.and_eq_true, Bool.not_eq_true', Bool.not_eq_true'] at hmark
  obtain ⟨⟨hword, hnone⟩, hsettles⟩ := hmark
  exact blankOut_append_cons (goesOn_of_settles (List.all_eq_true.1 hsettles w hw) r) hstart
    (fun before => first?_of_mayStart hnone before r) hword

end Pattern

/-! ## Lists of words -/

/-- The text is a list of some of the words, as many and as often as one likes, with one of the
marks between neighbours. -/
inductive ListOf (marks : List Char) (words : List Text) : Text → Prop
  | word {w : Text} (hw : w ∈ words) : ListOf marks words w
  | cons {w : Text} {c : Char} {t : Text} (hw : w ∈ words) (hc : c ∈ marks)
      (ht : ListOf marks words t) : ListOf marks words (w ++ c :: t)

namespace ListOf

open Pattern

variable {p : Pattern} {t : Text} {marks : List Char} {words : List Text}

theorem subset (ht : ListOf marks words t) : t ⊆ marks ++ words.flatten := by
  induction ht with
  | word hw => exact fun c hc => List.mem_append_right _ (List.mem_flatten_of_mem hw hc)
  | cons hw hc ht ih =>
    refine List.append_subset.2 ⟨?_, List.cons_subset.2 ⟨List.mem_append_left _ hc, ih⟩⟩
    exact fun c hc => List.mem_append_right _ (List.mem_flatten_of_mem hw hc)

/-- Blanking out hits in a list is blanking them out in each of its words. -/
theorem blankOut (hp : p.separates marks words = true) (ht : ListOf marks words t) :
    ListOf marks (words.map p.blankOut) (p.blankOut t) := by
  induction ht with
  | word hw => exact .word (List.mem_map_of_mem hw)
  | cons hw hc ht ih =>
    rw [blankOut_append_mark hp hw hc]
    exact .cons (List.mem_map_of_mem hw) hc ih

/-- A list is left as it is if each of the words is. -/
theorem blankOut_eq (hp : p.separates marks words = true) (hwords : ∀ w ∈ words, p.blankOut w = w)
    (ht : ListOf marks words t) : p.blankOut t = t := by
  induction ht with
  | word hw => exact hwords _ hw
  | cons hw hc ht ih => rw [blankOut_append_mark hp hw hc, hwords _ hw, ih]

/-- **So it is for one pattern after another.** -/
theorem foldl_blankOut {ps : List Pattern} {left : List Text}
    (hps : blankedWords? marks ps words = some left) (ht : ListOf marks words t) :
    ListOf marks left (ps.foldl (fun rest p => p.blankOut rest) t) := by
  induction ps generalizing words t with
  | nil =>
    obtain rfl := Option.some.inj hps
    exact ht
  | cons p ps ih =>
    rw [blankedWords?] at hps
    split at hps
    · next hp => exact ih hps (ht.blankOut hp)
    · exact absurd hps (by simp)

end ListOf

end OpeningHours
