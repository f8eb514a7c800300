import Mathlib.Data.List.Basic
import OpeningHours.Proofs.Pattern.Extraction

/-!
# What a pattern cannot match

Some questions about a pattern can be answered by looking at the pattern alone. Which characters can
start a hit, and which can stand in one? And can there be a hit at all in a text over a given
alphabet? The answers computed here err on one side only: where they say no, there is no hit.

* `mayBeEmpty`, `mayStart` — what the start of a hit can be; **`skips_of_mayStart`**: a stretch of
  characters that start no hit is passed over, whatever follows;
* `refuses` — a character that no hit takes, so that a hit in front of it ends in front of it;
* `isDeadOver`, `isMuteOver` — no hit, and no hit that takes anything, over an alphabet;
  **`skips_of_isMuteOver`**: a text over the alphabet is passed over as a whole;
  **`skips_before`**: and so is a stretch over the alphabet in front of a refused character.
-/

namespace OpeningHours.Pattern

variable {p : Pattern} {before : Option Char} {c : Char} {r s t : Text} {h : Hit}
  {alphabet : List Char} {stop : Option Char}

/-! ## How a hit can start -/

/-- Whether a hit of the pattern may take nothing. -/
def mayBeEmpty : Pattern → Bool
  | .empty => true
  | .one _ => false
  | .seq p q => p.mayBeEmpty && q.mayBeEmpty
  | .alt p q => p.mayBeEmpty || q.mayBeEmpty
  | .star _ => true
  | .keep _ p => p.mayBeEmpty
  | .atStart => true
  | .atEnd => true
  | .atWordEdge => true

/-- Whether a hit of the pattern may start with the character. -/
def mayStart (c : Char) : Pattern → Bool
  | .empty => false
  | .one accept => accept c
  | .seq p q => p.mayStart c || (p.mayBeEmpty && q.mayStart c)
  | .alt p q => p.mayStart c || q.mayStart c
  | .star p => p.mayStart c
  | .keep _ p => p.mayStart c
  | .atStart => false
  | .atEnd => false
  | .atWordEdge => false

@[simp] theorem mayBeEmpty_append (p q : Pattern) :
    (p ++ q).mayBeEmpty = (p.mayBeEmpty && q.mayBeEmpty) := rfl

@[simp] theorem mayStart_append (c : Char) (p q : Pattern) :
    (p ++ q).mayStart c = (p.mayStart c || (p.mayBeEmpty && q.mayStart c)) := rfl

@[simp] theorem mayBeEmpty_keep (slot : Slot) (p : Pattern) :
    (keep slot p).mayBeEmpty = p.mayBeEmpty := rfl

@[simp] theorem mayStart_keep (c : Char) (slot : Slot) (p : Pattern) :
    (keep slot p).mayStart c = p.mayStart c := rfl

/-- The hits of a condition on a place take nothing. -/
theorem taken_of_mem_ite {b : Bool} (hh : h ∈ if b then [Hit.nothing t] else []) :
    h.taken = [] := by
  rw [eq_nothing_of_mem_ite hh]
  rfl

theorem mayBeEmpty_of_mem_hits (hh : h ∈ p.hits before t) (hne : h.taken = []) :
    p.mayBeEmpty = true := by
  induction p generalizing before t h with
  | empty => rfl
  | one accept =>
    obtain ⟨c, r, rfl, -, rfl⟩ := mem_hits_one.1 hh
    exact absurd hne (List.cons_ne_nil c [])
  | seq p q ihp ihq =>
    obtain ⟨g, hg, k, hk, rfl⟩ := mem_hits_seq.1 hh
    obtain ⟨hg', hk'⟩ := List.append_eq_nil_iff.1 hne
    rw [mayBeEmpty, ihp hg hg', ihq hk hk']
    rfl
  | alt p q ihp ihq =>
    rw [hits, List.mem_append] at hh
    rw [mayBeEmpty, Bool.or_eq_true]
    exact hh.imp (fun hp => ihp hp hne) (fun hq => ihq hq hne)
  | star p => rfl
  | keep slot p ih =>
    obtain ⟨g, hg, rfl⟩ := mem_hits_keep.1 hh
    exact ih hg hne
  | atStart => rfl
  | atEnd => rfl
  | atWordEdge => rfl

theorem taken_ne_nil (hp : p.mayBeEmpty = false) (hh : h ∈ p.hits before t) : h.taken ≠ [] := by
  intro hnil
  have := mayBeEmpty_of_mem_hits hh hnil
  rw [hp] at this
  exact Bool.false_ne_true this

theorem filter_hits (hp : p.mayBeEmpty = false) (before : Option Char) (t : Text) :
    (p.hits before t).filter (fun h => !h.taken.isEmpty) = p.hits before t :=
  List.filter_eq_self.2 fun h hh => by simpa using taken_ne_nil hp hh

/-- Where no hit can be empty, the first hit is the preferred way to match. -/
theorem first?_eq_head? (hp : p.mayBeEmpty = false) (before : Option Char) (t : Text) :
    p.first? before t = (p.hits before t).head? := by
  rw [first?, ← List.head?_filter, filter_hits hp]

theorem mayStart_of_mem_hitsMany {n : Nat}
    (hp : ∀ before r h, h ∈ p.hits before (c :: r) → h.taken ≠ [] → p.mayStart c = true)
    (hh : h ∈ hitsMany p.hits n before (c :: r)) (hne : h.taken ≠ []) : p.mayStart c = true := by
  cases n with
  | zero =>
    obtain rfl : h = .nothing (c :: r) := by simpa [hitsMany] using hh
    exact absurd rfl hne
  | succ n =>
    rcases mem_hitsMany_succ.1 hh with ⟨g, hg, htaken, -⟩ | rfl
    · exact hp before r g hg htaken
    · exact absurd rfl hne

theorem mayStart_of_mem_hits (hh : h ∈ p.hits before (c :: r)) (hne : h.taken ≠ []) :
    p.mayStart c = true := by
  induction p generalizing before r h with
  | empty =>
    obtain rfl : h = .nothing (c :: r) := by simpa [hits] using hh
    exact absurd rfl hne
  | one accept =>
    rw [hits] at hh
    split at hh
    · assumption
    · simp at hh
  | seq p q ihp ihq =>
    obtain ⟨g, hg, k, hk, rfl⟩ := mem_hits_seq.1 hh
    rw [mayStart, Bool.or_eq_true, Bool.and_eq_true]
    by_cases hg' : g.taken = []
    · have hrest := taken_append_rest p before (c :: r) hg
      rw [hg', List.nil_append] at hrest
      rw [hrest] at hk
      have hk' : k.taken ≠ [] := by
        rintro hk'
        exact hne (by rw [Hit.taken_andThen, hg', hk']; rfl)
      exact .inr ⟨mayBeEmpty_of_mem_hits hg hg', ihq hk hk'⟩
    · exact .inl (ihp hg hg')
  | alt p q ihp ihq =>
    rw [hits, List.mem_append] at hh
    rw [mayStart, Bool.or_eq_true]
    exact hh.imp (fun hp => ihp hp hne) (fun hq => ihq hq hne)
  | star p ih =>
    rw [hits] at hh
    show p.mayStart c = true
    exact mayStart_of_mem_hitsMany (fun b r g hg hg' => ih hg hg') hh hne
  | keep slot p ih =>
    obtain ⟨g, hg, rfl⟩ := mem_hits_keep.1 hh
    exact ih hg hne
  | atStart =>
    rw [hits] at hh
    exact absurd (taken_of_mem_ite hh) hne
  | atEnd =>
    rw [hits] at hh
    exact absurd (taken_of_mem_ite hh) hne
  | atWordEdge =>
    rw [hits] at hh
    exact absurd (taken_of_mem_ite hh) hne

theorem first?_of_mayStart (hc : p.mayStart c = false) (before : Option Char) (r : Text) :
    p.first? before (c :: r) = none := by
  rw [first?, List.find?_eq_none]
  intro h hh
  by_contra hne
  have := mayStart_of_mem_hits hh (by simpa using hne)
  rw [hc] at this
  exact Bool.false_ne_true this

theorem fails_of_mayStart (hc : p.mayStart c = false) (he : p.mayBeEmpty = false) (r : Text) :
    p.Fails (c :: r) := by
  intro before
  rw [List.eq_nil_iff_forall_not_mem]
  intro h hh
  have := mayStart_of_mem_hits hh (taken_ne_nil he hh)
  rw [hc] at this
  exact Bool.false_ne_true this

theorem fails_nil (he : p.mayBeEmpty = false) : p.Fails [] := by
  intro before
  rw [List.eq_nil_iff_forall_not_mem]
  intro h hh
  exact taken_ne_nil he hh (List.append_eq_nil_iff.1 (taken_append_rest p before [] hh)).1

/-- **A stretch of characters that start no hit is passed over.** -/
theorem skips_of_mayStart {s : Text} (hs : ∀ c ∈ s, p.mayStart c = false) (rest : Text) :
    p.Skips s rest := by
  induction s with
  | nil => trivial
  | cons c s ih =>
    refine ⟨fun before => first?_of_mayStart (hs c List.mem_cons_self) before _, ih ?_⟩
    intro d hd
    exact hs d (List.mem_cons_of_mem c hd)

theorem skips_of_all {s : Text} (hs : (s.all fun c => !p.mayStart c) = true) (rest : Text) :
    p.Skips s rest :=
  skips_of_mayStart (fun c hc => by simpa using List.all_eq_true.1 hs c hc) rest

theorem skips_of_subset {s : Text} (halphabet : (alphabet.all fun c => !p.mayStart c) = true)
    (hs : s ⊆ alphabet) (rest : Text) : p.Skips s rest :=
  skips_of_mayStart (fun c hc => by simpa using List.all_eq_true.1 halphabet c (hs hc)) rest

/-! ## Blanks in front -/

theorem isBlank_of_mem_taken (hh : h ∈ blanks.hits before t) :
    ∀ c ∈ h.taken, Text.isBlank c = true := by
  rw [blanks, hits] at hh
  generalize t.length = n at hh
  induction n generalizing before t h with
  | zero =>
    obtain rfl : h = .nothing t := by simpa [hitsMany] using hh
    simp
  | succ n ih =>
    rcases mem_hitsMany_succ.1 hh with ⟨g, hg, -, k, hk, rfl⟩ | rfl
    · intro c hc
      rcases List.mem_append.1 hc with hc | hc
      · obtain ⟨d, r, rfl, hd, rfl⟩ := mem_hits_one.1 hg
        rw [List.mem_singleton.1 hc]
        exact hd
      · exact ih hk c hc
    · simp

/-- The blank characters. -/
def blankCharacters : List Char :=
  [0x09, 0x0A, 0x0B, 0x0C, 0x0D, 0x20, 0x85, 0xA0, 0x1680, 0x2000, 0x2001, 0x2002, 0x2003, 0x2004,
    0x2005, 0x2006, 0x2007, 0x2008, 0x2009, 0x200A, 0x2028, 0x2029, 0x202F, 0x205F, 0x3000].map
    Char.ofNat

theorem mem_blankCharacters (hc : Text.isBlank c = true) : c ∈ blankCharacters := by
  rw [← Char.ofNat_toNat c, blankCharacters]
  apply List.mem_map_of_mem
  simp only [Text.isBlank, Bool.or_eq_true, Bool.and_eq_true, decide_eq_true_eq, beq_iff_eq] at hc
  simp only [List.mem_cons, List.not_mem_nil, or_false]
  omega

/-- What starts with no blank fails behind any number of blanks if it fails behind all of them. -/
theorem fails_blanks_seq {q : Pattern}
    (hblank : (blankCharacters.all fun c => !q.mayStart c) = true)
    (he : q.mayBeEmpty = false) (hq : q.Fails (Text.trimStart t)) : (blanks ++ q).Fails t := by
  apply Fails.seq
  intro before h hh
  have htext := taken_append_rest blanks before t hh
  have hrest : Text.trimStart h.rest = Text.trimStart t := by
    rw [← htext, Text.trimStart, Text.trimStart, List.dropWhile_append_of_pos]
    exact isBlank_of_mem_taken hh
  cases hr : h.rest with
  | nil => exact fails_nil he
  | cons c r =>
    by_cases hc : Text.isBlank c = true
    · have hstart := List.all_eq_true.1 hblank c (mem_blankCharacters hc)
      exact fails_of_mayStart (by simpa using hstart) he r
    · rw [hr, Text.trimStart, List.dropWhile_cons_of_neg hc] at hrest
      rw [hrest]
      exact hq

/-! ## Refused characters -/

/-- Whether no part of the pattern accepts the character. -/
def refuses (c : Char) : Pattern → Bool
  | .empty => true
  | .one accept => !accept c
  | .seq p q => p.refuses c && q.refuses c
  | .alt p q => p.refuses c && q.refuses c
  | .star p => p.refuses c
  | .keep _ p => p.refuses c
  | .atStart => true
  | .atEnd => true
  | .atWordEdge => true

theorem not_mem_taken_of_hitsMany {n : Nat}
    (hp : ∀ before t h, h ∈ p.hits before t → c ∉ h.taken)
    (hh : h ∈ hitsMany p.hits n before t) : c ∉ h.taken := by
  induction n generalizing before t h with
  | zero =>
    obtain rfl : h = .nothing t := by simpa [hitsMany] using hh
    exact List.not_mem_nil
  | succ n ih =>
    rcases mem_hitsMany_succ.1 hh with ⟨g, hg, -, k, hk, rfl⟩ | rfl
    · rw [Hit.taken_andThen, List.mem_append]
      exact not_or.2 ⟨hp _ _ g hg, ih hk⟩
    · exact List.not_mem_nil

/-- A refused character is not taken. -/
theorem not_mem_taken (hp : p.refuses c = true) (hh : h ∈ p.hits before t) : c ∉ h.taken := by
  induction p generalizing before t h with
  | empty =>
    obtain rfl : h = .nothing t := by simpa [hits] using hh
    exact List.not_mem_nil
  | one accept =>
    obtain ⟨d, r, rfl, hd, rfl⟩ := mem_hits_one.1 hh
    rintro hmem
    rw [List.mem_singleton.1 hmem, refuses, hd] at hp
    exact Bool.noConfusion hp
  | seq p q ihp ihq =>
    obtain ⟨g, hg, k, hk, rfl⟩ := mem_hits_seq.1 hh
    rw [refuses, Bool.and_eq_true] at hp
    rw [Hit.taken_andThen, List.mem_append]
    exact not_or.2 ⟨ihp hp.1 hg, ihq hp.2 hk⟩
  | alt p q ihp ihq =>
    rw [refuses, Bool.and_eq_true] at hp
    rw [hits, List.mem_append] at hh
    exact hh.elim (ihp hp.1) (ihq hp.2)
  | star p ih =>
    rw [hits] at hh
    exact not_mem_taken_of_hitsMany (fun b t g hg => ih hp hg) hh
  | keep slot p ih =>
    obtain ⟨g, hg, rfl⟩ := mem_hits_keep.1 hh
    show c ∉ g.taken
    exact ih hp hg
  | atStart =>
    rw [hits] at hh
    rw [taken_of_mem_ite hh]
    exact List.not_mem_nil
  | atEnd =>
    rw [hits] at hh
    rw [taken_of_mem_ite hh]
    exact List.not_mem_nil
  | atWordEdge =>
    rw [hits] at hh
    rw [taken_of_mem_ite hh]
    exact List.not_mem_nil

/-! ## Texts over an alphabet -/

/-- The text is one over the alphabet, at least up to the first `stop`. -/
def Within (alphabet : List Char) (stop : Option Char) (t : Text) : Prop :=
  ∃ s rest, s ⊆ alphabet ∧ t = s ++ rest ∧ ∀ c ∈ rest.head?, c ∈ stop

/-- Whether the pattern has no hit in a text over the alphabet. -/
def isDeadOver (alphabet : List Char) : Pattern → Bool
  | .empty => false
  | .one accept => alphabet.all fun c => !accept c
  | .seq p q => p.isDeadOver alphabet || q.isDeadOver alphabet
  | .alt p q => p.isDeadOver alphabet && q.isDeadOver alphabet
  | .star _ => false
  | .keep _ p => p.isDeadOver alphabet
  | .atStart => false
  | .atEnd => false
  | .atWordEdge => false

/-- Whether the pattern has no hit that takes anything in a text over the alphabet. -/
def isMuteOver (alphabet : List Char) : Pattern → Bool
  | .empty => true
  | .one accept => alphabet.all fun c => !accept c
  | .seq p q => p.isDeadOver alphabet || q.isDeadOver alphabet ||
      (p.isMuteOver alphabet && q.isMuteOver alphabet)
  | .alt p q => p.isMuteOver alphabet && q.isMuteOver alphabet
  | .star p => p.isMuteOver alphabet
  | .keep _ p => p.isMuteOver alphabet
  | .atStart => true
  | .atEnd => true
  | .atWordEdge => true

theorem within_of_subset (ht : t ⊆ alphabet) : Within alphabet none t :=
  ⟨t, [], ht, (List.append_nil t).symm, by simp⟩

theorem within_append_cons (hs : s ⊆ alphabet) (c : Char) (rest : Text) :
    Within alphabet (some c) (s ++ c :: rest) :=
  ⟨s, c :: rest, hs, rfl, by simp⟩

theorem Within.head_mem (ht : Within alphabet stop (c :: r)) : c ∈ stop.toList ++ alphabet := by
  obtain ⟨s, rest, hs, htext, hrest⟩ := ht
  cases s with
  | nil =>
    rw [List.nil_append] at htext
    subst htext
    have := hrest c rfl
    simp only [Option.mem_def] at this
    simp [this]
  | cons d s =>
    obtain ⟨rfl, -⟩ := List.cons.inj htext
    exact List.mem_append_right _ (hs List.mem_cons_self)

/-- What a hit leaves is again a text over the alphabet up to the stop, if the stop is refused. -/
theorem Within.rest (ht : Within alphabet stop t) (hstop : ∀ c ∈ stop, p.refuses c = true)
    (hh : h ∈ p.hits before t) : Within alphabet stop h.rest := by
  obtain ⟨s, rest, hs, htext, hrest⟩ := ht
  have htaken := taken_append_rest p before t hh
  rw [htext] at htaken
  rcases List.append_eq_append_iff.1 htaken with ⟨u, hu, hleft⟩ | ⟨u, hu, hleft⟩
  · -- The hit ends inside the stretch.
    refine ⟨u, rest, fun c hc => hs ?_, hleft, hrest⟩
    rw [hu]
    exact List.mem_append_right _ hc
  · -- The hit reaches the stop, and takes nothing of it.
    cases u with
    | nil =>
      rw [List.nil_append] at hleft
      exact ⟨[], h.rest, List.nil_subset _, rfl, by rw [← hleft]; exact hrest⟩
    | cons c u =>
      have hc : c ∈ stop := hrest c (by rw [hleft]; rfl)
      refine absurd ?_ (not_mem_taken (hstop c hc) hh)
      rw [hu]
      exact List.mem_append_right _ List.mem_cons_self

theorem Within.not_mem_hits_one (ht : Within alphabet stop t) {accept : Char → Bool}
    (ha : ((stop.toList ++ alphabet).all fun c => !accept c) = true) :
    h ∉ (one accept).hits before t := by
  cases t with
  | nil => simp [hits]
  | cons c r =>
    have hc := List.all_eq_true.1 ha c ht.head_mem
    simp only [Bool.not_eq_true'] at hc
    simp [hits, hc]

theorem Within.not_mem_hits (ht : Within alphabet stop t)
    (hp : p.isDeadOver (stop.toList ++ alphabet) = true)
    (hstop : ∀ c ∈ stop, p.refuses c = true) : h ∉ p.hits before t := by
  induction p generalizing before t h with
  | one accept => exact ht.not_mem_hits_one hp
  | seq p q ihp ihq =>
    have hstop' : ∀ c ∈ stop, p.refuses c = true ∧ q.refuses c = true :=
      fun c hc => by simpa [refuses] using hstop c hc
    rw [hits, List.mem_flatMap]
    rintro ⟨g, hg, hh⟩
    obtain ⟨k, hk, rfl⟩ := List.mem_map.1 hh
    rw [isDeadOver, Bool.or_eq_true] at hp
    rcases hp with hp | hq
    · exact ihp ht hp (fun c hc => (hstop' c hc).1) hg
    · exact ihq (ht.rest (fun c hc => (hstop' c hc).1) hg) hq (fun c hc => (hstop' c hc).2) hk
  | alt p q ihp ihq =>
    have hstop' : ∀ c ∈ stop, p.refuses c = true ∧ q.refuses c = true :=
      fun c hc => by simpa [refuses] using hstop c hc
    rw [isDeadOver, Bool.and_eq_true] at hp
    rw [hits, List.mem_append]
    rintro (hh | hh)
    · exact ihp ht hp.1 (fun c hc => (hstop' c hc).1) hh
    · exact ihq ht hp.2 (fun c hc => (hstop' c hc).2) hh
  | keep slot p ih =>
    rw [hits]
    intro hh
    obtain ⟨g, hg, rfl⟩ := List.mem_map.1 hh
    exact ih ht hp hstop hg
  | empty => simp [isDeadOver] at hp
  | star p => simp [isDeadOver] at hp
  | atStart => simp [isDeadOver] at hp
  | atEnd => simp [isDeadOver] at hp
  | atWordEdge => simp [isDeadOver] at hp

theorem Within.taken_eq_nil (ht : Within alphabet stop t)
    (hp : p.isMuteOver (stop.toList ++ alphabet) = true)
    (hstop : ∀ c ∈ stop, p.refuses c = true) (hh : h ∈ p.hits before t) : h.taken = [] := by
  induction p generalizing before t h with
  | one accept => exact absurd hh (ht.not_mem_hits_one hp)
  | seq p q ihp ihq =>
    have hstop' : ∀ c ∈ stop, p.refuses c = true ∧ q.refuses c = true :=
      fun c hc => by simpa [refuses] using hstop c hc
    obtain ⟨g, hg, k, hk, rfl⟩ := mem_hits_seq.1 hh
    have hleft := ht.rest (fun c hc => (hstop' c hc).1) hg
    rw [isMuteOver, Bool.or_eq_true, Bool.or_eq_true, Bool.and_eq_true] at hp
    rcases hp with (hp | hq) | ⟨hp, hq⟩
    · exact absurd hg (ht.not_mem_hits hp fun c hc => (hstop' c hc).1)
    · exact absurd hk (hleft.not_mem_hits hq fun c hc => (hstop' c hc).2)
    · rw [Hit.taken_andThen, ihp ht hp (fun c hc => (hstop' c hc).1) hg,
        ihq hleft hq (fun c hc => (hstop' c hc).2) hk]
      rfl
  | alt p q ihp ihq =>
    have hstop' : ∀ c ∈ stop, p.refuses c = true ∧ q.refuses c = true :=
      fun c hc => by simpa [refuses] using hstop c hc
    rw [isMuteOver, Bool.and_eq_true] at hp
    rw [hits, List.mem_append] at hh
    exact hh.elim (ihp ht hp.1 fun c hc => (hstop' c hc).1)
      (ihq ht hp.2 fun c hc => (hstop' c hc).2)
  | keep slot p ih =>
    obtain ⟨g, hg, rfl⟩ := mem_hits_keep.1 hh
    show g.taken = []
    exact ih ht hp hstop hg
  | star p ih =>
    rw [hits] at hh
    cases hn : t.length with
    | zero =>
      obtain rfl : h = .nothing t := by simpa [hn, hitsMany] using hh
      rfl
    | succ n =>
      have hnone : (p.hits before t).filter (fun g => !g.taken.isEmpty) = [] := by
        rw [List.filter_eq_nil_iff]
        intro g hg
        simp [ih ht hp hstop hg]
      rw [hn, hitsMany, hnone] at hh
      obtain rfl : h = .nothing t := by simpa using hh
      rfl
  | empty =>
    obtain rfl : h = .nothing t := by simpa [hits] using hh
    rfl
  | atStart =>
    rw [hits] at hh
    exact taken_of_mem_ite hh
  | atEnd =>
    rw [hits] at hh
    exact taken_of_mem_ite hh
  | atWordEdge =>
    rw [hits] at hh
    exact taken_of_mem_ite hh

theorem Within.first?_eq_none (ht : Within alphabet stop t)
    (hp : p.isMuteOver (stop.toList ++ alphabet) = true)
    (hstop : ∀ c ∈ stop, p.refuses c = true) (before : Option Char) :
    p.first? before t = none := by
  rw [first?, List.find?_eq_none]
  intro h hh
  simp [ht.taken_eq_nil hp hstop hh]

theorem Within.fails (ht : Within alphabet stop t)
    (hp : p.isDeadOver (stop.toList ++ alphabet) = true)
    (hstop : ∀ c ∈ stop, p.refuses c = true) : p.Fails t := by
  intro before
  rw [List.eq_nil_iff_forall_not_mem]
  intro h
  exact ht.not_mem_hits hp hstop

/-- **A text over an alphabet that the pattern cannot match is passed over.** -/
theorem skips_of_isMuteOver (hp : p.isMuteOver alphabet = true) (ht : t ⊆ alphabet) :
    p.Skips t [] := by
  induction t with
  | nil => trivial
  | cons c r ih =>
    refine ⟨?_, ih fun d hd => ht (List.mem_cons_of_mem c hd)⟩
    rw [List.append_nil]
    exact (within_of_subset ht).first?_eq_none hp (by simp)

/-- **In front of a refused character, too, a stretch over such an alphabet is passed over.** -/
theorem skips_before (hp : p.isMuteOver (c :: alphabet) = true) (hc : p.refuses c = true)
    (hs : s ⊆ alphabet) (rest : Text) : p.Skips s (c :: rest) := by
  induction s with
  | nil => trivial
  | cons d s ih =>
    refine ⟨?_, ih fun e he => hs (List.mem_cons_of_mem d he)⟩
    exact (within_append_cons hs c rest).first?_eq_none hp (by simpa using hc)

theorem fails_of_isDeadOver (hp : p.isDeadOver alphabet = true) (ht : t ⊆ alphabet) :
    p.Fails t :=
  (within_of_subset ht).fails hp (by simp)

theorem fails_before (hp : p.isDeadOver (c :: alphabet) = true) (hc : p.refuses c = true)
    (hs : s ⊆ alphabet) (rest : Text) : p.Fails (s ++ c :: rest) :=
  (within_append_cons hs c rest).fails hp (by simpa using hc)

theorem occursIn_of_isMuteOver (hp : p.isMuteOver alphabet = true) (ht : t ⊆ alphabet) :
    p.occursIn t = false := by
  rw [occursIn, find?_eq_none_of_skips (skips_of_isMuteOver hp ht)]
  rfl

theorem extract_of_isMuteOver {α : Type} (read : Option Char → Hit → Option α)
    (hp : p.isMuteOver alphabet = true) (ht : t ⊆ alphabet) : p.extract read t = ([], t) :=
  extract_of_skips (skips_of_isMuteOver hp ht)

theorem blankOut_of_isMuteOver (hp : p.isMuteOver alphabet = true) (ht : t ⊆ alphabet) :
    p.blankOut t = t := by
  rw [blankOut, extract_of_isMuteOver _ hp ht]

end OpeningHours.Pattern
