import Mathlib.Order.Basic
import Mathlib.Data.List.Basic
import OpeningHours.Text.Pattern.Lemmas

/-!
# The preferred way to match

`Pattern.hits` lists every way to match at a place. What a reader sees is the head of that list, and
a pattern is passed over where the list is empty. The two predicates of this file say so without
the list, for any character in front of the place, and each comes with one rule for every way to
build a pattern:

* `Prefers p t h` — at the start of `t` the first way to match `p` is `h`;
* `Fails p t` — there is no way to match `p` at the start of `t`.

The rule for repetition rests on `hitsMany_eq_of_le`: a bound beyond the length of the text changes
nothing.
-/

namespace OpeningHours.Pattern

variable {p q : Pattern} {t r : Text} {h k : Hit}

/-- At the start of the text the first way to match is the given one. -/
def Prefers (p : Pattern) (t : Text) (h : Hit) : Prop :=
  ∀ before, (p.hits before t).head? = some h

/-- There is no way to match at the start of the text. -/
def Fails (p : Pattern) (t : Text) : Prop :=
  ∀ before, p.hits before t = []

theorem Prefers.of_eq {t' : Text} {h' : Hit} (hp : p.Prefers t h) (ht : t' = t) (hh : h' = h) :
    p.Prefers t' h' := by
  rw [ht, hh]
  exact hp

theorem first?_of_prefers (hp : p.Prefers t h) (hne : h.taken ≠ []) (before : Option Char) :
    p.first? before t = some h := by
  obtain ⟨hs, hhs⟩ := List.head?_eq_some_iff.1 (hp before)
  rw [first?, hhs, List.find?_cons_of_pos]
  simpa using hne

theorem first?_of_fails (hp : p.Fails t) (before : Option Char) : p.first? before t = none := by
  rw [first?, hp before, List.find?_nil]

/-! ## Single characters and empty stretches -/

theorem prefers_empty (t : Text) : empty.Prefers t (.nothing t) :=
  fun _ => rfl

theorem prefers_one {accept : Char → Bool} {c : Char} (hc : accept c = true) (r : Text) :
    (one accept).Prefers (c :: r) ⟨[c], [], r⟩ := by
  intro before
  simp [hits, hc]

theorem fails_one {accept : Char → Bool} {c : Char} (hc : accept c = false) (r : Text) :
    (one accept).Fails (c :: r) := by
  intro before
  simp [hits, hc]

theorem fails_one_nil (accept : Char → Bool) : (one accept).Fails [] :=
  fun _ => rfl

/-! ## One after another -/

theorem Prefers.seq (hp : p.Prefers t h) (hq : q.Prefers h.rest k) :
    (p.seq q).Prefers t (h.andThen k) := by
  intro before
  obtain ⟨hs, hhs⟩ := List.head?_eq_some_iff.1 (hp before)
  obtain ⟨ks, hks⟩ := List.head?_eq_some_iff.1 (hq (h.lastTaken before))
  rw [hits, hhs, List.flatMap_cons, hks]
  rfl

theorem Fails.seq (hp : ∀ before, ∀ h ∈ p.hits before t, q.Fails h.rest) :
    (p.seq q).Fails t := by
  intro before
  rw [hits, List.flatMap_eq_nil_iff]
  intro h hh
  rw [hp before h hh, List.map_nil]

theorem Fails.seq_left (hp : p.Fails t) (q : Pattern) : (p.seq q).Fails t := by
  intro before
  rw [hits, hp before, List.flatMap_nil]

theorem lastTaken_andThen (h k : Hit) (before : Option Char) :
    (h.andThen k).lastTaken before = k.lastTaken (h.lastTaken before) := by
  simp [Hit.lastTaken, List.getLast?_append, Option.or_assoc]

/-- Where the parts are put into groups does not matter for failing. -/
theorem Fails.assoc {r : Pattern} (h : (p.seq (q.seq r)).Fails t) : ((p.seq q).seq r).Fails t := by
  intro before
  rw [List.eq_nil_iff_forall_not_mem]
  intro k hk
  rw [hits, List.mem_flatMap] at hk
  obtain ⟨a, ha, hk⟩ := hk
  obtain ⟨c, hc, rfl⟩ := List.mem_map.1 hk
  rw [hits, List.mem_flatMap] at ha
  obtain ⟨a, ha, hmap⟩ := ha
  obtain ⟨b, hb, rfl⟩ := List.mem_map.1 hmap
  rw [lastTaken_andThen] at hc
  have hbc : b.andThen c ∈ (q.seq r).hits (a.lastTaken before) a.rest := by
    rw [hits, List.mem_flatMap]
    exact ⟨b, hb, List.mem_map_of_mem hc⟩
  have habc : a.andThen (b.andThen c) ∈ (p.seq (q.seq r)).hits before t := by
    rw [hits, List.mem_flatMap]
    exact ⟨a, ha, List.mem_map_of_mem hbc⟩
  rw [h before] at habc
  exact List.not_mem_nil habc

/-- The first hit of one pattern behind another is made of some hit and the first one behind it. -/
theorem exists_of_head?_hits_seq {before : Option Char}
    (hh : ((p ++ q).hits before t).head? = some h) :
    ∃ g ∈ p.hits before t, ∃ k, (q.hits (g.lastTaken before) g.rest).head? = some k ∧
      g.andThen k = h := by
  have hflat : ((p.hits before t).flatMap fun g =>
      (q.hits (g.lastTaken before) g.rest).map g.andThen).head? = some h := hh
  rw [List.head?_flatMap] at hflat
  obtain ⟨g, hg, hk⟩ := List.exists_of_findSome?_eq_some hflat
  rw [List.head?_map, Option.map_eq_some_iff] at hk
  obtain ⟨k, hk, rfl⟩ := hk
  exact ⟨g, hg, k, hk, rfl⟩

/-- Where every hit is gone on from, the first one goes on from the first. -/
theorem exists_of_head?_flatMap {hs : List Hit} {next : Hit → List Hit} (hnext : ∀ g, next g ≠ [])
    (hh : (hs.flatMap fun g => (next g).map g.andThen).head? = some h) :
    ∃ g k, hs.head? = some g ∧ (next g).head? = some k ∧ g.andThen k = h := by
  cases hs with
  | nil => exact absurd hh (by simp)
  | cons g gs =>
    obtain ⟨k, ks, hk⟩ := List.exists_cons_of_ne_nil (hnext g)
    rw [List.flatMap_cons, hk] at hh
    exact ⟨g, k, rfl, by rw [hk]; rfl, Option.some.inj hh⟩

/-! ## Choices -/

theorem Prefers.alt_left (hp : p.Prefers t h) (q : Pattern) : (p.alt q).Prefers t h := by
  intro before
  rw [hits, List.head?_append, hp before]
  rfl

theorem Prefers.alt_right (hp : p.Fails t) (hq : q.Prefers t h) : (p.alt q).Prefers t h := by
  intro before
  rw [hits, hp before, List.nil_append]
  exact hq before

theorem Fails.alt (hp : p.Fails t) (hq : q.Fails t) : (p.alt q).Fails t := by
  intro before
  rw [hits, hp before, hq before, List.nil_append]

theorem Prefers.opt (hp : p.Prefers t h) : p.opt.Prefers t h :=
  hp.alt_left empty

theorem Fails.opt (hp : p.Fails t) : p.opt.Prefers t (.nothing t) :=
  .alt_right hp (prefers_empty t)

/-! ## Kept parts -/

theorem Prefers.keep (hp : p.Prefers t h) (slot : Slot) :
    (Pattern.keep slot p).Prefers t { h with parts := (slot, h.taken) :: h.parts } := by
  intro before
  rw [hits, List.head?_map, hp before]
  rfl

/-! ## Repetition -/

theorem length_rest_lt {before : Option Char} (hh : h ∈ p.hits before t) (hne : h.taken ≠ []) :
    h.rest.length < t.length := by
  have ht := congrArg List.length (taken_append_rest p before t hh)
  have hpos := List.length_pos_iff.2 hne
  rw [List.length_append] at ht
  omega

/-- More repetitions than the text has characters add nothing. -/
theorem hitsMany_succ (p : Pattern) {n : Nat} (before : Option Char) (hn : t.length ≤ n) :
    hitsMany p.hits (n + 1) before t = hitsMany p.hits n before t := by
  induction n generalizing before t with
  | zero =>
    obtain rfl : t = [] := List.eq_nil_of_length_eq_zero (by omega)
    have hnone : (p.hits before []).filter (fun h => !h.taken.isEmpty) = [] := by
      rw [List.filter_eq_nil_iff]
      intro h hh
      have : h.taken = [] := by
        by_contra hne
        exact absurd (length_rest_lt hh hne) (Nat.not_lt_zero _)
      simp [this]
    rw [hitsMany, hitsMany, hnone]
    rfl
  | succ n ih =>
    rw [hitsMany, hitsMany]
    congr 1
    apply List.flatMap_congr
    intro h hh
    obtain ⟨hmem, htaken⟩ := List.mem_filter.1 hh
    have hlt := length_rest_lt hmem (by simpa using htaken)
    rw [ih (t := h.rest) (h.lastTaken before) (by omega)]

theorem hitsMany_eq_of_le (p : Pattern) {n : Nat} (before : Option Char) (hn : t.length ≤ n) :
    hitsMany p.hits n before t = p.star.hits before t := by
  induction hn with
  | refl => rfl
  | step hn ih => rw [hitsMany_succ p before hn, ih]

theorem hitsMany_ne_nil (step : Option Char → Text → List Hit) (n : Nat) (before : Option Char)
    (t : Text) : hitsMany step n before t ≠ [] := by
  cases n <;> simp [hitsMany]

theorem hits_star_of_fails (hp : p.Fails t) (before : Option Char) :
    p.star.hits before t = [.nothing t] := by
  rw [← hitsMany_eq_of_le p before (Nat.le_succ t.length), hitsMany, hp before]
  rfl

/-- Repetition stops where nothing more can be taken. -/
theorem Fails.star (hp : p.Fails t) : p.star.Prefers t (.nothing t) := by
  intro before
  rw [hits_star_of_fails hp before]
  rfl

/-- Repetition goes on where something can be taken. -/
theorem Prefers.star (hp : p.Prefers t h) (hne : h.taken ≠ []) (hk : p.star.Prefers h.rest k) :
    p.star.Prefers t (h.andThen k) := by
  intro before
  obtain ⟨hs, hhs⟩ := List.head?_eq_some_iff.1 (hp before)
  have hmem : h ∈ p.hits before t := by
    rw [hhs]
    exact List.mem_cons_self
  have hlt := length_rest_lt hmem hne
  obtain ⟨ks, hks⟩ := List.head?_eq_some_iff.1 (hk (h.lastTaken before))
  rw [← hitsMany_eq_of_le p before (Nat.le_succ t.length), hitsMany, hhs,
    List.filter_cons_of_pos (by simpa using hne), List.flatMap_cons,
    hitsMany_eq_of_le p (h.lastTaken before) (Nat.le_of_lt hlt), hks]
  rfl

/-- Repetition takes a whole list of stretches, each of which is taken whatever follows it. -/
theorem prefers_star_flatMap {α : Type} {f : α → Text} (hne : ∀ x, f x ≠ [])
    (hp : ∀ x rest, p.Prefers (f x ++ rest) ⟨f x, [], rest⟩) (hstop : p.Fails t) (xs : List α) :
    p.star.Prefers (xs.flatMap f ++ t) ⟨xs.flatMap f, [], t⟩ := by
  induction xs with
  | nil => exact hstop.star
  | cons x xs ih =>
    rw [List.flatMap_cons, List.append_assoc]
    exact (hp x (xs.flatMap f ++ t)).star (hne x) ih

/-! ## Words -/

theorem prefers_word (w : String) (r : Text) :
    (word w).Prefers (w.toList ++ r) ⟨w.toList, [], r⟩ := by
  rw [word]
  induction w.toList with
  | nil => exact prefers_empty r
  | cons c cs ih =>
    have hc : (one (· == c)).Prefers (c :: (cs ++ r)) ⟨[c], [], cs ++ r⟩ :=
      prefers_one (beq_self_eq_true c) (cs ++ r)
    exact hc.seq ih

/-- A hit of a word takes the word. -/
theorem taken_of_mem_hits_word {w : String} {before : Option Char}
    (hh : h ∈ (word w).hits before t) : h.taken = w.toList := by
  rw [word] at hh
  generalize w.toList = cs at hh ⊢
  induction cs generalizing before t h with
  | nil =>
    obtain rfl : h = .nothing t := by simpa [hits] using hh
    rfl
  | cons c cs ih =>
    rw [List.foldr_cons] at hh
    obtain ⟨g, hg, k, hk, rfl⟩ := mem_hits_seq.1 hh
    obtain ⟨d, r, rfl, hd, rfl⟩ := mem_hits_one.1 hg
    show d :: k.taken = c :: cs
    rw [eq_of_beq hd, ih hk]

/-- A word matches only where the text starts with it. -/
theorem fails_word {w : String} (hw : w.toList.isPrefixOf t = false) : (word w).Fails t := by
  rw [word]
  generalize w.toList = cs at hw
  induction cs generalizing t with
  | nil => simp [List.isPrefixOf] at hw
  | cons c cs ih =>
    cases t with
    | nil => exact (fails_one_nil _).seq_left _
    | cons d r =>
      rw [List.isPrefixOf_cons_cons, Bool.and_eq_false_iff] at hw
      by_cases hd : d = c
      · apply Fails.seq
        intro before h hh
        obtain rfl : h = ⟨[d], [], r⟩ := by simpa [hits, hd] using hh
        exact ih (hw.resolve_left (by simp [hd]))
      · exact (fails_one (by simpa using hd) r).seq_left _

/-! ## Blanks -/

/-- No blanks are taken in front of another character or at the end. -/
theorem prefers_blanks_nothing (ht : t.head?.any Text.isBlank = false) :
    blanks.Prefers t (.nothing t) := by
  apply Fails.star
  cases t with
  | nil => exact fails_one_nil _
  | cons c r => exact fails_one (by simpa using ht) r

end OpeningHours.Pattern
