import Mathlib.Data.List.Basic
import OpeningHours.Proofs.Pattern.Alphabet

/-!
# Texts that go on

A text is looked at alone and with more text behind it. What a pattern finds in the text does not
change if no hit reaches into the text behind it, and if the pattern does not ask whether the text
ends.

* `Hit.extend` — the hit with more text behind it;
* `ignoresEnd`, `ignoresStart` — the pattern has no condition on an end of the text;
* **`hits_append`**: the hits of a text are those hits of the longer text that stop in front of what
  has been added;
* `Halts p r` — a hit that starts in front of `r` stops in front of `r`, and none starts at `r`
  itself; `halts_of_refuses` and `Halts.cons` find such places by looking at the pattern;
* `GoesOn p r before t` — every place that the scan of `t` comes to looks the same with `r` behind;
  **`scanFrom_append`**: up to a place where hits stop the longer text is scanned as the text alone;
* **`blankOut_append_cons`**: at a character where the scan goes on and no hit starts, both sides
  are blanked out on their own;
* **`findAll_append_cons`**: so a text is searched on its own on both sides of a character that no
  hit takes;
* **`extract_append_singleton`**: one character that no hit takes is left behind what the
  extraction leaves; **`infix_extract`**: and a word that no hit reaches into stays as it is.
-/

namespace OpeningHours

/-- The hit with more text behind it. -/
def Hit.extend (r : Text) (h : Hit) : Hit :=
  { h with rest := h.rest ++ r }

/-- Whether the hit leaves all of a text that stands at the end. -/
def Hit.leavesAll (r : Text) (h : Hit) : Bool :=
  r.length ≤ h.rest.length

@[simp] theorem Hit.taken_extend (r : Text) (h : Hit) : (h.extend r).taken = h.taken := rfl

namespace Pattern

variable {p : Pattern} {before before' : Option Char} {c : Char} {r s t w : Text} {h : Hit}
  {α : Type} {read : Option Char → Hit → Option α}

/-! ## Conditions on the ends of the text -/

/-- Whether every part of the pattern that has no parts itself passes the test. -/
def everyLeaf (test : Pattern → Bool) : Pattern → Bool
  | .seq p q => p.everyLeaf test && q.everyLeaf test
  | .alt p q => p.everyLeaf test && q.everyLeaf test
  | .star p => p.everyLeaf test
  | .keep _ p => p.everyLeaf test
  | p => test p

/-- Whether the pattern never asks if the text ends. -/
def ignoresEnd (p : Pattern) : Bool :=
  p.everyLeaf fun | .atEnd => false | _ => true

/-- Whether the pattern never asks if the text starts. -/
def ignoresStart (p : Pattern) : Bool :=
  p.everyLeaf fun | .atStart => false | _ => true

theorem any_isWordCharacter_lastTaken (h : Hit)
    (hb : before.any Text.isWordCharacter = before'.any Text.isWordCharacter) :
    (h.lastTaken before).any Text.isWordCharacter =
      (h.lastTaken before').any Text.isWordCharacter := by
  rw [Hit.lastTaken, Hit.lastTaken]
  cases h.taken.getLast? with
  | none => exact hb
  | some c => rfl

theorem hitsMany_congr_before {step : Option Char → Text → List Hit}
    (hstep : ∀ {b b' : Option Char} (t), b.any Text.isWordCharacter = b'.any Text.isWordCharacter →
      step b t = step b' t) (n : Nat) (t : Text)
    (hb : before.any Text.isWordCharacter = before'.any Text.isWordCharacter) :
    hitsMany step n before t = hitsMany step n before' t := by
  induction n generalizing before before' t with
  | zero => rfl
  | succ n ih =>
    rw [hitsMany, hitsMany, hstep t hb]
    congr 1
    exact List.flatMap_congr fun h _ => by rw [ih h.rest (any_isWordCharacter_lastTaken h hb)]

/-- Of the character in front, a pattern asks no more than whether it is a word character. -/
theorem hits_congr_before (hp : p.ignoresStart = true) (t : Text)
    (hb : before.any Text.isWordCharacter = before'.any Text.isWordCharacter) :
    p.hits before t = p.hits before' t := by
  induction p generalizing before before' t with
  | seq p q ihp ihq =>
    obtain ⟨hp, hq⟩ : p.ignoresStart = true ∧ q.ignoresStart = true := Bool.and_eq_true_iff.1 hp
    rw [hits, hits, ihp hp t hb]
    exact List.flatMap_congr fun h _ => by rw [ihq hq h.rest (any_isWordCharacter_lastTaken h hb)]
  | alt p q ihp ihq =>
    obtain ⟨hp, hq⟩ : p.ignoresStart = true ∧ q.ignoresStart = true := Bool.and_eq_true_iff.1 hp
    rw [hits, hits, ihp hp t hb, ihq hq t hb]
  | star p ih => exact hitsMany_congr_before (fun t hb => ih hp t hb) t.length t hb
  | keep slot p ih => rw [hits, hits, ih hp t hb]
  | atWordEdge => rw [hits, hits, hb]
  | atStart => exact absurd hp (by decide)
  | empty => rfl
  | one accept => rfl
  | atEnd => rfl

/-! ## Hits of the longer text -/

/-- Going on from hits of the longer text: if those that leave `r` are the hits of the text, the
same holds of what follows them. -/
theorem filter_leavesAll_flatMap {longer hs : List Hit} {f g : Hit → List Hit}
    (hhs : longer.filter (Hit.leavesAll r) = hs.map (Hit.extend r))
    (hf : ∀ h, ∀ k ∈ f h, k.rest.length ≤ h.rest.length)
    (hg : ∀ h, (f (h.extend r)).filter (Hit.leavesAll r) = (g h).map (Hit.extend r)) :
    (longer.flatMap f).filter (Hit.leavesAll r) = (hs.flatMap g).map (Hit.extend r) := by
  -- What follows a hit that reaches into `r` reaches into `r` as well.
  have hdrop : longer.flatMap (fun h => (f h).filter (Hit.leavesAll r)) =
      (longer.filter (Hit.leavesAll r)).flatMap fun h => (f h).filter (Hit.leavesAll r) := by
    clear hhs
    induction longer with
    | nil => rfl
    | cons h longer ih =>
      by_cases hh : h.leavesAll r = true
      · rw [List.filter_cons_of_pos hh, List.flatMap_cons, List.flatMap_cons, ih]
      · have hnone : (f h).filter (Hit.leavesAll r) = [] := by
          rw [List.filter_eq_nil_iff]
          intro k hk
          have hlen := hf h k hk
          simp only [Hit.leavesAll, decide_eq_true_eq] at hh ⊢
          omega
        rw [List.filter_cons_of_neg hh, List.flatMap_cons, hnone, List.nil_append, ih]
  rw [List.filter_flatMap, hdrop, hhs, List.flatMap_map, List.map_flatMap]
  exact List.flatMap_congr fun h _ => hg h

theorem length_rest_le_of_mem_hits (hh : h ∈ p.hits before t) : h.rest.length ≤ t.length := by
  have ht := congrArg List.length (taken_append_rest p before t hh)
  rw [List.length_append] at ht
  omega

theorem filter_leavesAll_nothing (r t : Text) :
    [Hit.nothing (t ++ r)].filter (Hit.leavesAll r) = [Hit.nothing t].map (Hit.extend r) := by
  simp [Hit.leavesAll, Hit.nothing, Hit.extend]

theorem filter_leavesAll_hitsMany
    (hp : ∀ before t, (p.hits before (t ++ r)).filter (Hit.leavesAll r) =
      (p.hits before t).map (Hit.extend r)) (n : Nat) (before : Option Char) (t : Text) :
    (hitsMany p.hits n before (t ++ r)).filter (Hit.leavesAll r) =
      (hitsMany p.hits n before t).map (Hit.extend r) := by
  induction n generalizing before t with
  | zero => exact filter_leavesAll_nothing r t
  | succ n ih =>
    rw [hitsMany, hitsMany, List.filter_append, List.map_append, filter_leavesAll_nothing]
    congr 1
    refine filter_leavesAll_flatMap ?_ ?_ fun h => ?_
    · rw [List.filter_filter, List.filter_congr (fun _ _ => Bool.and_comm _ _),
        ← List.filter_filter, hp, List.filter_map]
      rfl
    · intro h k hk
      obtain ⟨g, hg, rfl⟩ := List.mem_map.1 hk
      have htext := taken_append_rest_of_mem_hitsMany
        (fun b t h hb => taken_append_rest p b t hb) _ _ _ hg
      have hlen := congrArg List.length htext
      rw [List.length_append] at hlen
      rw [Hit.rest_andThen]
      omega
    · rw [List.filter_map, List.map_map]
      show ((hitsMany p.hits n (h.lastTaken before) (h.rest ++ r)).filter
        (Hit.leavesAll r)).map _ = _
      rw [ih, List.map_map]
      rfl

/-- **The hits of a text are the hits of the longer text that stop in front of what is added**, in
the same order. -/
theorem hits_append (hp : p.ignoresEnd = true) (hr : r.head?.any Text.isWordCharacter = false)
    (before : Option Char) (t : Text) :
    (p.hits before (t ++ r)).filter (Hit.leavesAll r) = (p.hits before t).map (Hit.extend r) := by
  induction p generalizing before t with
  | empty => exact filter_leavesAll_nothing r t
  | one accept =>
    cases t with
    | nil =>
      cases r with
      | nil => rfl
      | cons c r => by_cases hc : accept c = true <;> simp [hits, hc, Hit.leavesAll]
    | cons c t => by_cases hc : accept c = true <;> simp [hits, hc, Hit.leavesAll, Hit.extend]
  | seq p q ihp ihq =>
    obtain ⟨hp, hq⟩ : p.ignoresEnd = true ∧ q.ignoresEnd = true := Bool.and_eq_true_iff.1 hp
    rw [hits, hits]
    refine filter_leavesAll_flatMap (ihp hp before t) ?_ fun h => ?_
    · intro h k hk
      obtain ⟨g, hg, rfl⟩ := List.mem_map.1 hk
      rw [Hit.rest_andThen]
      exact length_rest_le_of_mem_hits hg
    · rw [List.filter_map, List.map_map]
      show ((q.hits (h.lastTaken before) (h.rest ++ r)).filter (Hit.leavesAll r)).map _ = _
      rw [ihq hq, List.map_map]
      rfl
  | alt p q ihp ihq =>
    obtain ⟨hp, hq⟩ : p.ignoresEnd = true ∧ q.ignoresEnd = true := Bool.and_eq_true_iff.1 hp
    rw [hits, hits, List.filter_append, List.map_append, ihp hp, ihq hq]
  | star p ih =>
    have hlen : t.length ≤ (t ++ r).length := by simp
    rw [← hitsMany_eq_of_le p before hlen]
    exact filter_leavesAll_hitsMany (fun before t => ih hp before t) _ before t
  | keep slot p ih =>
    rw [hits, hits, List.filter_map, List.map_map]
    show ((p.hits before (t ++ r)).filter (Hit.leavesAll r)).map _ = _
    rw [ih hp, List.map_map]
    rfl
  | atStart =>
    rw [hits, hits]
    split
    · exact filter_leavesAll_nothing r t
    · rfl
  | atEnd => exact absurd hp (by decide)
  | atWordEdge =>
    have hhead : (t ++ r).head?.any Text.isWordCharacter = t.head?.any Text.isWordCharacter := by
      cases t with
      | nil => exact hr
      | cons c t => rfl
    rw [hits, hits, hhead]
    split
    · exact filter_leavesAll_nothing r t
    · rfl

/-- A hit stays a hit where the text goes on. -/
theorem extend_mem_hits (hp : p.ignoresEnd = true) (hr : r.head?.any Text.isWordCharacter = false)
    (hh : h ∈ p.hits before t) : h.extend r ∈ p.hits before (t ++ r) := by
  have hmem := List.mem_map_of_mem (f := Hit.extend r) hh
  rw [← hits_append hp hr] at hmem
  exact (List.mem_filter.1 hmem).1

/-! ## Occurrences -/

theorem findFrom?_isSome_iff : (p.findFrom? before t).isSome = true ↔
    ∃ s u, t = s ++ u ∧ ∃ h ∈ p.hits (s.getLast?.or before) u, h.taken ≠ [] := by
  induction t generalizing before with
  | nil =>
    simp only [findFrom?, Option.isSome_none, Bool.false_eq_true, false_iff]
    rintro ⟨s, u, ht, h, hh, hne⟩
    obtain ⟨rfl, rfl⟩ := List.append_eq_nil_iff.1 ht.symm
    exact hne (List.append_eq_nil_iff.1 (taken_append_rest p _ _ hh)).1
  | cons c r ih =>
    rw [findFrom?]
    cases hfirst : p.first? before (c :: r) with
    | some h =>
      simp only [Option.isSome_some, true_iff]
      have hne : (!h.taken.isEmpty) = true :=
        List.find?_some (p := fun h : Hit => !h.taken.isEmpty) hfirst
      exact ⟨[], c :: r, rfl, h, List.mem_of_find?_eq_some hfirst, by simpa using hne⟩
    | none =>
      simp only [Option.isSome_map, ih]
      constructor
      · rintro ⟨s, u, rfl, h, hh, hne⟩
        exact ⟨c :: s, u, rfl, h, by rwa [Text.getLast?_cons_or], hne⟩
      · rintro ⟨s, u, ht, h, hh, hne⟩
        cases s with
        | nil =>
          obtain rfl : u = c :: r := ht.symm
          have hnone := List.find?_eq_none.1 hfirst h hh
          simp [hne] at hnone
        | cons d s =>
          obtain ⟨rfl, rfl⟩ := List.cons.inj ht
          exact ⟨s, u, rfl, h, by rwa [← Text.getLast?_cons_or], hne⟩

/-- A pattern occurs in a text if it has a hit at some place that takes something. -/
theorem occursIn_iff : p.occursIn t = true ↔
    ∃ s u, t = s ++ u ∧ ∃ h ∈ p.hits s.getLast? u, h.taken ≠ [] := by
  show (p.findFrom? none t).isSome = true ↔ _
  rw [findFrom?_isSome_iff]
  simp only [Option.or_none]

theorem ne_nil_of_occursIn (ht : p.occursIn t = true) : t ≠ [] := by
  rintro rfl
  exact Bool.false_ne_true ht

/-- A word occurs in every text that has it. -/
theorem occursIn_word {w : String} (hne : w.toList ≠ []) (ht : w.toList <:+: t) :
    (word w).occursIn t = true := by
  obtain ⟨s, r, rfl⟩ := ht
  have hmem := List.mem_of_mem_head? (prefers_word w r s.getLast?)
  exact occursIn_iff.2 ⟨s, w.toList ++ r, List.append_assoc s w.toList r, _, hmem, hne⟩

/-- What occurs in a text occurs in it where it goes on. -/
theorem occursIn_append_left (hp : p.ignoresEnd = true)
    (hr : r.head?.any Text.isWordCharacter = false) (ht : p.occursIn t = true) :
    p.occursIn (t ++ r) = true := by
  obtain ⟨s, u, rfl, h, hh, hne⟩ := occursIn_iff.1 ht
  have hmem := extend_mem_hits hp hr hh
  exact occursIn_iff.2 ⟨s, u ++ r, List.append_assoc s u r, h.extend r, hmem, hne⟩

/-- What occurs in a text occurs in it behind other text, unless words run together. -/
theorem occursIn_append_right (hp : p.ignoresStart = true) (hc : Text.isWordCharacter c = false)
    (hr : p.occursIn r = true) (t : Text) : p.occursIn (t ++ c :: r) = true := by
  obtain ⟨s, u, rfl, h, hh, hne⟩ := occursIn_iff.1 hr
  refine occursIn_iff.2 ⟨t ++ c :: s, u, by simp, h, ?_, hne⟩
  have hedge : (t ++ c :: s).getLast?.any Text.isWordCharacter =
      s.getLast?.any Text.isWordCharacter := by
    rw [List.getLast?_append, List.getLast?_cons]
    cases s.getLast? with
    | none => simpa using hc
    | some d => rfl
  rw [hits_congr_before hp u hedge]
  exact hh

theorem scanFrom_of_findFrom?_eq_none (ht : p.findFrom? before t = none) :
    p.scanFrom 0 before t = t.map .loose := by
  induction t generalizing before with
  | nil => rfl
  | cons c r ih =>
    rw [findFrom?] at ht
    cases hfirst : p.first? before (c :: r) with
    | some h => simp [hfirst] at ht
    | none =>
      rw [hfirst] at ht
      rw [scanFrom, hfirst, List.map_cons, ← ih (Option.map_eq_none_iff.1 ht)]

/-- Nothing is read of a text in which the pattern does not occur. -/
theorem extract_of_occursIn_eq_false {α : Type} (read : Option Char → Hit → Option α)
    (ht : p.occursIn t = false) : p.extract read t = ([], t) := by
  have hfind : p.findFrom? none t = none :=
    Option.isNone_iff_eq_none.1 (Option.isSome_eq_false_iff.1 ht)
  have hnone : (p.extract read t).1 = [] := by
    rw [extract, scan, scanFrom_of_findFrom?_eq_none hfind, List.filterMap_map,
      List.filterMap_eq_nil_iff]
    exact fun c _ => rfl
  exact Prod.ext hnone (extract_snd_of_fst_eq_nil hnone)

/-- A text in which the pattern does not occur is left as it is. -/
theorem blankOut_of_occursIn_eq_false (ht : p.occursIn t = false) : p.blankOut t = t := by
  rw [blankOut, extract_of_occursIn_eq_false _ ht]

/-! ## Places where hits stop -/

/-- Every hit that takes something and starts in front of `r`, or at its start, leaves `r`. -/
def Halts (p : Pattern) (r : Text) : Prop :=
  ∀ before s h, h ∈ p.hits before (s ++ r) → h.taken ≠ [] → h.leavesAll r = true

theorem halts_nil (p : Pattern) : p.Halts [] := by
  intro before s h _ _
  simp [Hit.leavesAll]

/-- Hits stop in front of a character that none takes. -/
theorem halts_of_refuses (hc : p.refuses c = true) (r : Text) : p.Halts (c :: r) := by
  intro before s h hh _
  have htext := taken_append_rest p before _ hh
  have htaken := not_mem_taken hc hh
  rcases List.append_eq_append_iff.1 htext with ⟨u, -, hrest⟩ | ⟨u, hu, hrest⟩
  · simp [Hit.leavesAll, hrest]
  · cases u with
    | nil => rw [List.nil_append] at hrest; simp [Hit.leavesAll, ← hrest]
    | cons d u =>
      obtain ⟨rfl, -⟩ := List.cons.inj hrest
      exact absurd (by simp [hu]) htaken

/-- Whether a hit of the pattern may end with the character. -/
def mayEnd (c : Char) : Pattern → Bool
  | .empty => false
  | .one accept => accept c
  | .seq p q => q.mayEnd c || (q.mayBeEmpty && p.mayEnd c)
  | .alt p q => p.mayEnd c || q.mayEnd c
  | .star p => p.mayEnd c
  | .keep _ p => p.mayEnd c
  | .atStart => false
  | .atEnd => false
  | .atWordEdge => false

theorem mayEnd_of_mem_hitsMany {n : Nat}
    (hp : ∀ before t h, h ∈ p.hits before t → h.taken.getLast? = some c → p.mayEnd c = true)
    (hh : h ∈ hitsMany p.hits n before t) (hlast : h.taken.getLast? = some c) :
    p.mayEnd c = true := by
  induction n generalizing before t h with
  | zero =>
    obtain rfl : h = .nothing t := by simpa [hitsMany] using hh
    simp at hlast
  | succ n ih =>
    rcases mem_hitsMany_succ.1 hh with ⟨g, hg, -, k, hk, rfl⟩ | rfl
    · rw [Hit.taken_andThen, List.getLast?_append, Option.or_eq_some_iff] at hlast
      rcases hlast with hlast | ⟨-, hlast⟩
      · exact ih hk hlast
      · exact hp _ _ g hg hlast
    · simp at hlast

theorem mayEnd_of_mem_hits (hh : h ∈ p.hits before t) (hlast : h.taken.getLast? = some c) :
    p.mayEnd c = true := by
  induction p generalizing before t h with
  | empty =>
    obtain rfl : h = .nothing t := by simpa [hits] using hh
    simp at hlast
  | one accept =>
    obtain ⟨d, r, rfl, hd, rfl⟩ := mem_hits_one.1 hh
    obtain rfl : d = c := by simpa using hlast
    exact hd
  | seq p q ihp ihq =>
    obtain ⟨g, hg, k, hk, rfl⟩ := mem_hits_seq.1 hh
    rw [Hit.taken_andThen, List.getLast?_append, Option.or_eq_some_iff] at hlast
    rw [mayEnd, Bool.or_eq_true, Bool.and_eq_true]
    rcases hlast with hlast | ⟨hnone, hlast⟩
    · exact .inl (ihq hk hlast)
    · exact .inr ⟨mayBeEmpty_of_mem_hits hk (List.getLast?_eq_none_iff.1 hnone), ihp hg hlast⟩
  | alt p q ihp ihq =>
    rw [hits, List.mem_append] at hh
    rw [mayEnd, Bool.or_eq_true]
    exact hh.imp (fun hp => ihp hp hlast) (fun hq => ihq hq hlast)
  | star p ih =>
    rw [hits] at hh
    show p.mayEnd c = true
    exact mayEnd_of_mem_hitsMany (fun b t g hg hlast => ih hg hlast) hh hlast
  | keep slot p ih =>
    obtain ⟨g, hg, rfl⟩ := mem_hits_keep.1 hh
    exact ih hg hlast
  | atStart =>
    rw [hits] at hh
    simp [taken_of_mem_ite hh] at hlast
  | atEnd =>
    rw [hits] at hh
    simp [taken_of_mem_ite hh] at hlast
  | atWordEdge =>
    rw [hits] at hh
    simp [taken_of_mem_ite hh] at hlast

/-- Hits stop one character earlier if none ends with that character. -/
theorem Halts.cons (hr : p.Halts r) (hc : p.mayEnd c = false) : p.Halts (c :: r) := by
  intro before s h hh hne
  have hleaves : r.length ≤ h.rest.length := by
    have := hr before (s ++ [c]) h (by simpa using hh) hne
    simpa [Hit.leavesAll] using this
  rcases Nat.lt_or_eq_of_le hleaves with hlt | heq
  · simp only [Hit.leavesAll, List.length_cons, decide_eq_true_eq]
    omega
  · have htext : h.taken ++ h.rest = (s ++ [c]) ++ r := by
      simpa using taken_append_rest p before _ hh
    obtain ⟨htaken, -⟩ := List.append_inj' htext heq.symm
    have := mayEnd_of_mem_hits hh (c := c) (by simp [htaken])
    rw [hc] at this
    exact absurd this Bool.false_ne_true

/-- No hit starts at a place where hits stop. -/
theorem Halts.first?_eq_none (hr : p.Halts r) (before : Option Char) :
    p.first? before r = none := by
  rw [first?, List.find?_eq_none]
  intro h hh hne
  have hne : h.taken ≠ [] := by simpa using hne
  have hleaves := hr before [] h hh hne
  have hlt := length_rest_lt hh hne
  simp only [Hit.leavesAll, decide_eq_true_eq] at hleaves
  omega

theorem first?_append (hp : p.ignoresEnd = true) (hr : r.head?.any Text.isWordCharacter = false)
    (hhalts : p.Halts r) (before : Option Char) (t : Text) :
    p.first? before (t ++ r) = (p.first? before t).map (Hit.extend r) := by
  have hkeep : (p.hits before (t ++ r)).filter (fun h => !h.taken.isEmpty) =
      ((p.hits before (t ++ r)).filter (Hit.leavesAll r)).filter fun h => !h.taken.isEmpty := by
    rw [List.filter_filter]
    apply List.filter_congr
    intro h hh
    by_cases hne : h.taken = []
    · simp [hne]
    · simp [hhalts before t h hh hne]
  rw [first?, ← List.head?_filter, hkeep, List.head?_filter, hits_append hp hr, List.find?_map]
  rfl

/-! ## Scanning up to such a place -/

/-- The piece with more text behind it. -/
def Piece.extend (r : Text) : Piece → Piece
  | .loose c => .loose c
  | .hit before h => .hit before (h.extend r)

/-- At every place that the scan of the text comes to, it finds the same with `r` behind the
text. -/
inductive GoesOn (p : Pattern) (r : Text) : Option Char → Text → Prop
  | nil {before : Option Char} : GoesOn p r before []
  | loose {before : Option Char} {c : Char} {t : Text} (hnone : p.first? before (c :: t) = none)
      (hlonger : p.first? before (c :: (t ++ r)) = none) (htail : GoesOn p r (some c) t) :
      GoesOn p r before (c :: t)
  | hit {before : Option Char} {t : Text} {h : Hit} (hfirst : p.first? before t = some h)
      (hlonger : p.first? before (t ++ r) = some (h.extend r))
      (htail : GoesOn p r (h.lastTaken before) h.rest) : GoesOn p r before t

/-- The longer text is scanned as the text alone, and then `r` is. -/
theorem GoesOn.scanFrom_append (hgo : p.GoesOn r before t) :
    p.scanFrom 0 before (t ++ r) = (p.scanFrom 0 before t).map (Piece.extend r) ++
      p.scanFrom 0 (t.getLast?.or before) r := by
  induction hgo with
  | nil => rfl
  | @loose before c t hnone hlonger htail ih =>
    rw [Text.getLast?_cons_or, List.cons_append, scanFrom, scanFrom, hnone, hlonger]
    show .loose c :: p.scanFrom 0 (some c) (t ++ r) = _
    rw [ih]
    rfl
  | @hit before t h hfirst hlonger htail ih =>
    have hlast : h.rest.getLast?.or (h.lastTaken before) = t.getLast?.or before := by
      rw [← (first?_eq_some hfirst).2, List.getLast?_append, Option.or_assoc]
      rfl
    rw [scanFrom_of_first? hfirst, scanFrom_of_first? hlonger]
    show .hit before (h.extend r) :: p.scanFrom 0 (h.lastTaken before) (h.rest ++ r) = _
    rw [ih, hlast]
    rfl

theorem Halts.goesOn (hhalts : p.Halts r) (hp : p.ignoresEnd = true)
    (hr : r.head?.any Text.isWordCharacter = false) (before : Option Char) (t : Text) :
    p.GoesOn r before t := by
  have hscan := p.scans_scanFrom before t
  generalize p.scanFrom 0 before t = pieces at hscan
  induction hscan with
  | nil => exact .nil
  | @loose before c t pieces hnone htail ih =>
    have hlonger := first?_append hp hr hhalts before (c :: t)
    rw [hnone] at hlonger
    exact .loose hnone hlonger ih
  | @hit before t h pieces hfirst htail ih =>
    have hlonger := first?_append hp hr hhalts before t
    rw [hfirst] at hlonger
    exact .hit hfirst hlonger ih

/-- **Up to a place where hits stop, the longer text is scanned as the text alone.** -/
theorem scanFrom_append (hp : p.ignoresEnd = true) (hr : r.head?.any Text.isWordCharacter = false)
    (hhalts : p.Halts r) (before : Option Char) (t : Text) :
    p.scanFrom 0 before (t ++ r) = (p.scanFrom 0 before t).map (Piece.extend r) ++
      p.scanFrom 0 (t.getLast?.or before) r :=
  (hhalts.goesOn hp hr before t).scanFrom_append

/-- Whatever the pattern asks of the end, the scan of the longer text goes on at such a place. -/
theorem Halts.reads (hhalts : p.Halts r) (read : Option Char → Hit → Option α)
    (before : Option Char) (s : Text) : ∃ ms left, p.Reads read before s r ms left := by
  suffices ∃ pieces, p.scanFrom 0 before (s ++ r) =
      pieces ++ p.scanFrom 0 (s.getLast?.or before) r by
    obtain ⟨pieces, hscan⟩ := this
    exact ⟨_, _, pieces, hscan, rfl, rfl⟩
  induction hn : s.length using Nat.strongRecOn generalizing before s with
  | ind n ih =>
    subst hn
    cases s with
    | nil => exact ⟨[], rfl⟩
    | cons c s =>
      cases hh : p.first? before (c :: s ++ r) with
      | none =>
        obtain ⟨pieces, hscan⟩ := ih s.length (Nat.lt_succ_self _) (some c) s rfl
        refine ⟨.loose c :: pieces, ?_⟩
        rw [List.cons_append] at hh
        rw [Text.getLast?_cons_or, List.cons_append, scanFrom, hh]
        show .loose c :: p.scanFrom 0 (some c) (s ++ r) = _
        rw [hscan]
        rfl
      | some h =>
        obtain ⟨hne, htext⟩ := first?_eq_some hh
        have hleaves : r.length ≤ h.rest.length := by
          simpa [Hit.leavesAll] using hhalts before _ h (List.mem_of_find?_eq_some hh) hne
        -- The hit ends inside `c :: s`, and the scan goes on with what is left of that.
        obtain ⟨u, hu⟩ : ∃ u, h.rest = u ++ r := by
          rcases List.append_eq_append_iff.1 htext with ⟨u, -, hu⟩ | ⟨u, -, hu⟩
          · exact ⟨u, hu⟩
          · have hlen := congrArg List.length hu
            rw [List.length_append] at hlen
            obtain rfl : u = [] := List.eq_nil_of_length_eq_zero (by omega)
            exact ⟨[], hu.symm⟩
        have hs : c :: s = h.taken ++ u := by
          rw [hu, ← List.append_assoc] at htext
          exact (List.append_cancel_right htext).symm
        have hlt : u.length < (c :: s).length := by
          have := List.length_pos_iff.2 hne
          rw [hs, List.length_append]
          omega
        have hlast : (c :: s).getLast?.or before = u.getLast?.or (h.lastTaken before) := by
          rw [hs, List.getLast?_append, Option.or_assoc]
          rfl
        obtain ⟨pieces, hscan⟩ := ih u.length hlt (h.lastTaken before) u rfl
        exact ⟨.hit before h :: pieces, by rw [scanFrom_of_first? hh, hu, hscan, hlast]; rfl⟩

/-! ## One character behind the text -/

theorem scanFrom_singleton (hhalts : p.Halts [c]) (before : Option Char) :
    p.scanFrom 0 before [c] = [.loose c] := by
  rw [scanFrom, hhalts.first?_eq_none]
  rfl

/-- **A character that no hit takes stays behind what the extraction leaves.** -/
theorem extract_append_singleton (hp : p.ignoresEnd = true) (hc : Text.isWordCharacter c = false)
    (hend : p.mayEnd c = false)
    (hread : ∀ before h, read before (h.extend [c]) = read before h) (t : Text) :
    p.extract read (t ++ [c]) = ((p.extract read t).1, (p.extract read t).2 ++ [c]) := by
  have hhalts : p.Halts [c] := (halts_nil p).cons hend
  have hpiece (piece : Piece) : readPiece read (piece.extend [c]) = readPiece read piece := by
    cases piece with
    | loose d => rfl
    | hit before h => exact hread before h
  have hleave (piece : Piece) : leavePiece read (piece.extend [c]) = leavePiece read piece := by
    rw [leavePiece, leavePiece, hpiece]
    cases piece <;> rfl
  rw [extract, extract, scan, scan, scanFrom_append hp (by simpa using hc) hhalts,
    scanFrom_singleton hhalts, List.filterMap_append, List.flatMap_append, List.filterMap_map,
    List.flatMap_map]
  have hms : readPiece read ∘ Piece.extend [c] = readPiece read := funext hpiece
  have hleft : leavePiece read ∘ Piece.extend [c] = leavePiece read := funext hleave
  rw [hms]
  show (_ ++ [], (p.scanFrom 0 none t).flatMap (leavePiece read ∘ Piece.extend [c]) ++ [c]) = _
  rw [hleft, List.append_nil]

theorem blankOut_append_singleton (hp : p.ignoresEnd = true) (hc : Text.isWordCharacter c = false)
    (hend : p.mayEnd c = false) (t : Text) : p.blankOut (t ++ [c]) = p.blankOut t ++ [c] := by
  have hleave : leavePiece (fun _ h => some h) = leavePiece fun _ _ => some () :=
    funext fun piece => by cases piece <;> rfl
  have hextract (u : Text) : p.blankOut u = (p.extract (fun _ _ => some ()) u).2 := by
    rw [blankOut, extract, extract, hleave]
  rw [hextract, hextract, extract_append_singleton hp hc hend fun _ _ => rfl]

theorem occursIn_append_singleton (hp : p.ignoresEnd = true) (hc : Text.isWordCharacter c = false)
    (hend : p.mayEnd c = false) (t : Text) : p.occursIn (t ++ [c]) = p.occursIn t := by
  rw [Bool.eq_iff_iff]
  constructor
  · intro hoccurs
    obtain ⟨s, u, ht, h, hh, hne⟩ := occursIn_iff.1 hoccurs
    have hhalts : p.Halts [c] := (halts_nil p).cons hend
    rcases List.eq_nil_or_concat u with rfl | ⟨v, d, rfl⟩
    · exact absurd (List.append_eq_nil_iff.1 (taken_append_rest p _ _ hh)).1 hne
    · rw [List.concat_eq_append, ← List.append_assoc] at ht
      obtain ⟨rfl, hcd⟩ := List.append_inj' ht rfl
      obtain rfl := List.singleton_inj.1 hcd
      rw [List.concat_eq_append] at hh
      have hmem := List.mem_filter.2 ⟨hh, hhalts _ v h hh hne⟩
      rw [hits_append hp (by simpa using hc)] at hmem
      obtain ⟨g, hg, rfl⟩ := List.mem_map.1 hmem
      exact occursIn_iff.2 ⟨s, v, rfl, g, hg, hne⟩
  · exact occursIn_append_left hp (by simpa using hc)

/-! ## Scans that agree -/

/-- The piece, wherever it stands. -/
def Piece.unplaced : Piece → Piece
  | .loose c => .loose c
  | .hit _ h => .hit none h

/-- The hit that the piece is, if it is one. -/
def Piece.hit? : Piece → Option Hit
  | .loose _ => none
  | .hit _ h => some h

theorem findAll_eq (p : Pattern) (t : Text) : p.findAll t = (p.scan t).filterMap Piece.hit? :=
  List.filterMap_congr fun piece _ => by cases piece <;> rfl

/-- Patterns that find the same at every place of a text scan it alike. -/
theorem scanFrom_congr {q : Pattern} (hfirst : ∀ s r, s ++ r = t →
      p.first? (s.getLast?.or before) r = q.first? (s.getLast?.or before') r) :
    (p.scanFrom 0 before t).map Piece.unplaced = (q.scanFrom 0 before' t).map Piece.unplaced := by
  induction hn : t.length using Nat.strongRecOn generalizing before before' t with
  | ind n ih =>
    subst hn
    cases t with
    | nil => rfl
    | cons c t =>
      have hhere : p.first? before (c :: t) = q.first? before' (c :: t) := hfirst [] _ rfl
      cases hh : p.first? before (c :: t) with
      | none =>
        have hrest (s r : Text) (hsr : s ++ r = t) :
            p.first? (s.getLast?.or (some c)) r = q.first? (s.getLast?.or (some c)) r := by
          have hbehind := hfirst (c :: s) r (by rw [← hsr]; rfl)
          rwa [Text.getLast?_cons_or, Text.getLast?_cons_or] at hbehind
        have htail := ih t.length (Nat.lt_succ_self _) hrest rfl
        rw [scanFrom, scanFrom, ← hhere, hh, List.map_cons, List.map_cons, htail]
      | some h =>
        obtain ⟨hne, htext⟩ := first?_eq_some hh
        have hlt := length_rest_lt (List.mem_of_find?_eq_some hh) hne
        have hrest (s r : Text) (hsr : s ++ r = h.rest) :
            p.first? (s.getLast?.or (h.lastTaken before)) r =
              q.first? (s.getLast?.or (h.lastTaken before')) r := by
          have hbehind := hfirst (h.taken ++ s) r (by rw [List.append_assoc, hsr, htext])
          rwa [List.getLast?_append, Option.or_assoc, Option.or_assoc] at hbehind
        have htail := ih h.rest.length hlt hrest rfl
        rw [scanFrom_of_first? hh, scanFrom_of_first? (hhere.symm.trans hh), List.map_cons,
          List.map_cons, htail]
        rfl

/-- What is left of a text with its hits blanked out does not hang on where they stand. -/
theorem blankOut_eq (p : Pattern) (t : Text) :
    p.blankOut t = ((p.scan t).map Piece.unplaced).flatMap (leavePiece fun _ h => some h) := by
  rw [List.flatMap_map, blankOut, extract]
  exact List.flatMap_congr fun piece _ => by cases piece <;> rfl

theorem blankOut_congr {q : Pattern}
    (hfirst : ∀ s r, s ++ r = t → p.first? s.getLast? r = q.first? s.getLast? r) :
    p.blankOut t = q.blankOut t := by
  have hscan : (p.scan t).map Piece.unplaced = (q.scan t).map Piece.unplaced :=
    scanFrom_congr fun s r hsr => by simpa using hfirst s r hsr
  rw [blankOut_eq, blankOut_eq, hscan]

/-! ## On both sides of a character -/

/-- On both sides of a character where the scan goes on and no hit starts, a text is scanned on its
own. -/
theorem scan_append_cons (hgo : p.GoesOn (c :: r) none t) (hstart : p.ignoresStart = true)
    (hnone : ∀ before, p.first? before (c :: r) = none) (hword : Text.isWordCharacter c = false) :
    (p.scan (t ++ c :: r)).map Piece.unplaced =
      ((p.scan t).map (Piece.extend (c :: r))).map Piece.unplaced ++
        .loose c :: (p.scan r).map Piece.unplaced := by
  have hskip (before : Option Char) :
      p.scanFrom 0 before (c :: r) = .loose c :: p.scanFrom 0 (some c) r := by
    rw [scanFrom, hnone]
  have hbehind : (p.scanFrom 0 (some c) r).map Piece.unplaced = (p.scan r).map Piece.unplaced := by
    refine scanFrom_congr fun s u _ => ?_
    have hedge : (s.getLast?.or (some c)).any Text.isWordCharacter =
        (s.getLast?.or none).any Text.isWordCharacter := by
      cases s.getLast? with
      | none => exact hword
      | some d => rfl
    rw [first?, first?, hits_congr_before hstart u hedge]
  rw [scan, scan, hgo.scanFrom_append, hskip, List.map_append, List.map_cons, hbehind]
  rfl

theorem blankOut_append_cons (hgo : p.GoesOn (c :: r) none t) (hstart : p.ignoresStart = true)
    (hnone : ∀ before, p.first? before (c :: r) = none) (hword : Text.isWordCharacter c = false) :
    p.blankOut (t ++ c :: r) = p.blankOut t ++ c :: p.blankOut r := by
  have hextend (pieces : List Piece) :
      ((pieces.map (Piece.extend (c :: r))).map Piece.unplaced).flatMap
          (leavePiece fun _ h => some h) =
        (pieces.map Piece.unplaced).flatMap (leavePiece fun _ h => some h) := by
    rw [List.map_map, List.flatMap_map, List.flatMap_map]
    exact List.flatMap_congr fun piece _ => by cases piece <;> rfl
  rw [blankOut_eq, scan_append_cons hgo hstart hnone hword, List.flatMap_append, hextend,
    ← blankOut_eq, List.flatMap_cons, ← blankOut_eq]
  rfl

/-- **On both sides of a character that no hit takes, a text is searched on its own.** -/
theorem findAll_append_cons (hend : p.ignoresEnd = true) (hstart : p.ignoresStart = true)
    (hc : p.refuses c = true) (hword : Text.isWordCharacter c = false) (t u : Text) :
    p.findAll (t ++ c :: u) = (p.findAll t).map (Hit.extend (c :: u)) ++ p.findAll u := by
  have hplace (pieces : List Piece) :
      pieces.filterMap Piece.hit? = (pieces.map Piece.unplaced).filterMap Piece.hit? := by
    rw [List.filterMap_map]
    exact List.filterMap_congr fun piece _ => by cases piece <;> rfl
  have hfront (pieces : List Piece) :
      (pieces.map (Piece.extend (c :: u))).filterMap Piece.hit? =
        (pieces.filterMap Piece.hit?).map (Hit.extend (c :: u)) := by
    rw [List.filterMap_map, List.map_filterMap]
    exact List.filterMap_congr fun piece _ => by cases piece <;> rfl
  have hhalts := halts_of_refuses hc u
  have hgo := hhalts.goesOn hend (by simpa using hword) none t
  have hscan := scan_append_cons hgo hstart hhalts.first?_eq_none hword
  rw [findAll_eq, hplace, hscan, List.filterMap_append, ← hplace, hfront, ← findAll_eq]
  show _ ++ ((p.scan u).map Piece.unplaced).filterMap Piece.hit? = _
  rw [← hplace, ← findAll_eq]

/-! ## Words that no hit reaches into -/

/-- Whether no hit ends inside the word or takes its last character. -/
def spares (p : Pattern) (w : Text) : Bool :=
  (w.all fun c => !p.mayEnd c) && w.getLast?.any p.refuses

theorem halts_of_spares (hw : p.spares w = true) (r : Text) : p.Halts (w ++ r) := by
  obtain ⟨hall, hlast⟩ := Bool.and_eq_true_iff.1 hw
  induction w with
  | nil => exact absurd hlast Bool.false_ne_true
  | cons c w ih =>
    rw [List.all_cons, Bool.and_eq_true, Bool.not_eq_true'] at hall
    cases w with
    | nil => exact halts_of_refuses hlast r
    | cons d w =>
      have hlast : (d :: w).getLast?.any p.refuses = true := hlast
      have hw : p.spares (d :: w) = true := Bool.and_eq_true_iff.2 ⟨hall.2, hlast⟩
      exact (ih hw hall.2 hlast).cons hall.1

theorem skips_of_spares (hw : p.spares w = true) (r : Text) : p.Skips w r := by
  obtain ⟨hall, hlast⟩ := Bool.and_eq_true_iff.1 hw
  induction w with
  | nil => trivial
  | cons c w ih =>
    refine ⟨(halts_of_spares hw r).first?_eq_none, ?_⟩
    cases w with
    | nil => trivial
    | cons d w =>
      have hall : (d :: w).all (fun c => !p.mayEnd c) = true := by
        rw [List.all_cons, Bool.and_eq_true] at hall
        exact hall.2
      have hlast : (d :: w).getLast?.any p.refuses = true := hlast
      exact ih (Bool.and_eq_true_iff.2 ⟨hall, hlast⟩) hall hlast

/-- **A word that no hit reaches into stays as it is.** -/
theorem infix_extract (read : Option Char → Hit → Option α) (hw : p.spares w = true)
    (ht : w <:+: t) : w <:+: (p.extract read t).2 := by
  obtain ⟨s, r, rfl⟩ := ht
  obtain ⟨ms, left, hs⟩ := (halts_of_spares hw r).reads read none s
  obtain ⟨ms', left', hr⟩ := (halts_nil p).reads read ((s ++ w).getLast?.or none) r
  have hword : p.Reads read (s.getLast?.or none) w r [] w := .of_skips (skips_of_spares hw r)
  have hfront := hs.append hword
  rw [← List.append_nil r] at hfront
  rw [extract_of_reads (hfront.append hr)]
  exact ⟨left, left', rfl⟩

end Pattern

end OpeningHours
