import Mathlib.Data.List.Basic
import OpeningHours.Proofs.Pattern.Preferred

/-!
# Extraction, stretch by stretch

A scan runs through a whole text. To say what it does to a text that is put together from parts,
each part is looked at alone, in front of a rest that is scanned afterwards:

* `Skips p s rest` — no hit starts inside `s` where `rest` follows;
* `Reads p read before s rest ms left` — inside `s`, with `before` in front and `rest` behind, the
  extraction reads `ms` and leaves `left`, and it goes on at the start of `rest`.

Stretches one behind the other are read one after the other (`Reads.append`), and a text that is
read to its end gives the extraction (`extract_of_reads`).
-/

namespace OpeningHours.Pattern

variable {α : Type} {p : Pattern} {read : Option Char → Hit → Option α} {before : Option Char}
  {s u rest left left' : Text} {ms ms' : List α}

/-! ## The scanner -/

/-- Characters that are passed over leave the last of them in front of the rest. -/
theorem scanFrom_length (p : Pattern) (before : Option Char) (s rest : Text) :
    p.scanFrom s.length before (s ++ rest) = p.scanFrom 0 (s.getLast?.or before) rest := by
  induction s generalizing before with
  | nil => rfl
  | cons c s ih =>
    rw [List.length_cons, List.cons_append, scanFrom, ih, Text.getLast?_cons_or]

/-- The scan behind a hit goes on with what the hit leaves. -/
theorem scanFrom_of_first? {t : Text} {h : Hit} (hh : p.first? before t = some h) :
    p.scanFrom 0 before t = .hit before h :: p.scanFrom 0 (h.lastTaken before) h.rest := by
  obtain ⟨hne, ht⟩ := first?_eq_some hh
  obtain ⟨c, s, hs⟩ := List.exists_cons_of_ne_nil hne
  have htext : t = c :: (s ++ h.rest) := by rw [← ht, hs, List.cons_append]
  have hlast : h.lastTaken before = s.getLast?.or (some c) := by
    rw [Hit.lastTaken, hs, Text.getLast?_cons_or]
  rw [htext] at hh ⊢
  rw [scanFrom, hh, hlast]
  show .hit before h :: p.scanFrom (h.taken.length - 1) (some c) (s ++ h.rest) = _
  rw [hs, List.length_cons, Nat.add_sub_cancel, scanFrom_length]

/-- The scan of a text, piece by piece: where no hit starts the character is loose, and behind a
hit the scan goes on with what the hit leaves. -/
inductive Scans (p : Pattern) : Option Char → Text → List Piece → Prop
  | nil {before : Option Char} : Scans p before [] []
  | loose {before : Option Char} {c : Char} {r : Text} {pieces : List Piece}
      (hnone : p.first? before (c :: r) = none) (htail : Scans p (some c) r pieces) :
      Scans p before (c :: r) (.loose c :: pieces)
  | hit {before : Option Char} {t : Text} {h : Hit} {pieces : List Piece}
      (hfirst : p.first? before t = some h) (htail : Scans p (h.lastTaken before) h.rest pieces) :
      Scans p before t (.hit before h :: pieces)

/-- A scan is made piece by piece. -/
theorem scans_scanFrom (p : Pattern) (before : Option Char) (t : Text) :
    p.Scans before t (p.scanFrom 0 before t) := by
  induction hn : t.length using Nat.strongRecOn generalizing before t with
  | ind n ih =>
    subst hn
    cases t with
    | nil => exact .nil
    | cons c r =>
      cases hfirst : p.first? before (c :: r) with
      | none =>
        rw [scanFrom, hfirst]
        exact .loose hfirst (ih r.length (Nat.lt_succ_self _) (some c) r rfl)
      | some h =>
        rw [scanFrom_of_first? hfirst]
        have hshorter := length_rest_lt (List.mem_of_find?_eq_some hfirst) (first?_eq_some hfirst).1
        exact .hit hfirst (ih h.rest.length hshorter _ h.rest rfl)

theorem scans_scan (p : Pattern) (t : Text) : p.Scans none t (p.scan t) :=
  scans_scanFrom p none t

/-- A hit of a scan stands in the text, with its character in front. -/
theorem Scans.exists_front {t : Text} {b : Option Char} {h : Hit} {pieces : List Piece}
    (hscan : p.Scans before t pieces) (hh : .hit b h ∈ pieces) :
    ∃ s, t = s ++ (h.taken ++ h.rest) ∧ b = s.getLast?.or before := by
  induction hscan with
  | nil => exact absurd hh List.not_mem_nil
  | @loose before c r pieces hnone htail ih =>
    obtain ⟨s, rfl, hb⟩ := ih ((List.mem_cons.1 hh).resolve_left (by simp))
    exact ⟨c :: s, rfl, by rw [hb, Text.getLast?_cons_or]⟩
  | @hit before t k pieces hfirst htail ih =>
    obtain ⟨-, ht⟩ := first?_eq_some hfirst
    rcases List.mem_cons.1 hh with heq | hh
    · obtain ⟨rfl, rfl⟩ : b = before ∧ h = k := by simpa using heq
      exact ⟨[], ht.symm, rfl⟩
    · obtain ⟨s, hs, hb⟩ := ih hh
      refine ⟨k.taken ++ s, by rw [List.append_assoc, ← hs, ht], ?_⟩
      rw [hb, Hit.lastTaken, List.getLast?_append, Option.or_assoc]

theorem exists_front_of_mem_scan {t : Text} {b : Option Char} {h : Hit} (hh : .hit b h ∈ p.scan t) :
    ∃ s, t = s ++ (h.taken ++ h.rest) ∧ b = s.getLast? := by
  obtain ⟨s, ht, hb⟩ := (p.scans_scan t).exists_front hh
  exact ⟨s, ht, by rw [hb, Option.or_none]⟩

/-! ## Hits that are read -/

theorem mem_hits_of_mem_scanFrom {k : Nat} {t : Text} {b : Option Char} {h : Hit}
    (hh : .hit b h ∈ p.scanFrom k before t) :
    h.taken ≠ [] ∧ h ∈ p.hits b (h.taken ++ h.rest) := by
  induction t generalizing k before with
  | nil => simp [scanFrom] at hh
  | cons c r ih =>
    cases k with
    | succ k => exact ih hh
    | zero =>
      rw [scanFrom] at hh
      cases hfirst : p.first? before (c :: r) with
      | none =>
        rw [hfirst, List.mem_cons] at hh
        exact ih (hh.resolve_left (by simp))
      | some g =>
        rw [hfirst, List.mem_cons] at hh
        rcases hh with heq | hh
        · obtain ⟨rfl, rfl⟩ : b = before ∧ h = g := by simpa using heq
          obtain ⟨hne, ht⟩ := first?_eq_some hfirst
          rw [ht]
          exact ⟨hne, List.mem_of_find?_eq_some hfirst⟩
        · exact ih hh

/-- What an extraction reads, it reads from a hit. -/
theorem exists_hit_of_mem_extract {t : Text} {a : α} (ha : a ∈ (p.extract read t).1) :
    ∃ b h, .hit b h ∈ p.scan t ∧ read b h = some a := by
  obtain ⟨piece, hpiece, hread⟩ := List.mem_filterMap.1 ha
  cases piece with
  | loose c => exact absurd hread (by simp [readPiece])
  | hit b h => exact ⟨b, h, hpiece, hread⟩

/-- Where every hit is taken away and some are then dropped, each value that is left is read from a
hit. -/
theorem exists_hit_of_mem_filterMap_extract {f : Hit → Option α} {t : Text} {a : α}
    (ha : a ∈ (p.extract (fun _ h => some (f h)) t).1.filterMap id) :
    ∃ b h, .hit b h ∈ p.scan t ∧ f h = some a := by
  obtain ⟨read, hmem, hsome⟩ := List.mem_filterMap.1 ha
  obtain ⟨b, h, hscan, hread⟩ := exists_hit_of_mem_extract hmem
  exact ⟨b, h, hscan, (Option.some.inj hread).trans hsome⟩

/-! ## Stretches without a hit -/

/-- No hit starts inside the first text where the second follows. -/
def Skips (p : Pattern) : Text → Text → Prop
  | [], _ => True
  | c :: s, rest => (∀ before, p.first? before (c :: (s ++ rest)) = none) ∧ Skips p s rest

theorem skips_append : p.Skips (s ++ u) rest ↔ p.Skips s (u ++ rest) ∧ p.Skips u rest := by
  induction s with
  | nil => simp [Skips]
  | cons c s ih => simp only [List.cons_append, Skips, ih, List.append_assoc, and_assoc]

theorem scanFrom_of_skips (hs : p.Skips s rest) (before : Option Char) :
    p.scanFrom 0 before (s ++ rest) =
      s.map .loose ++ p.scanFrom 0 (s.getLast?.or before) rest := by
  induction s generalizing before with
  | nil => rfl
  | cons c s ih =>
    rw [List.cons_append, scanFrom, hs.1 before]
    show Piece.loose c :: p.scanFrom 0 (some c) (s ++ rest) = _
    rw [ih hs.2, Text.getLast?_cons_or]
    rfl

theorem findFrom?_of_skips (hs : p.Skips s rest) (before : Option Char) :
    p.findFrom? before (s ++ rest) =
      (p.findFrom? (s.getLast?.or before) rest).map fun (skipped, h) => (s ++ skipped, h) := by
  induction s generalizing before with
  | nil => simp
  | cons c s ih =>
    rw [List.cons_append, findFrom?, hs.1 before]
    show (p.findFrom? (some c) (s ++ rest)).map _ = _
    rw [ih hs.2, Option.map_map, Text.getLast?_cons_or]
    rfl

/-- The first hit of a text lies behind a stretch without a hit. -/
theorem find?_of_skips {t : Text} {h : Hit} (hs : p.Skips s t) (hp : p.Prefers t h)
    (hne : h.taken ≠ []) : p.find? (s ++ t) = some (s, h) := by
  have hfirst := first?_of_prefers hp hne (s.getLast?.or none)
  obtain ⟨c, r, rfl⟩ : ∃ c r, t = c :: r := by
    apply List.exists_cons_of_ne_nil
    rintro rfl
    have := (first?_eq_some hfirst).2
    simp [hne] at this
  rw [find?, findFrom?_of_skips hs, findFrom?, hfirst]
  simp

theorem find?_eq_none_of_skips {t : Text} (hs : p.Skips t []) : p.find? t = none := by
  have := findFrom?_of_skips hs none
  rw [List.append_nil] at this
  rw [find?, this]
  rfl

theorem occursIn_of_skips {t : Text} {h : Hit} (hs : p.Skips s t) (hp : p.Prefers t h)
    (hne : h.taken ≠ []) : p.occursIn (s ++ t) = true := by
  rw [occursIn, find?_of_skips hs hp hne]
  rfl

theorem findAll_of_skips {t : Text} (hs : p.Skips t []) : p.findAll t = [] := by
  have hscan := scanFrom_of_skips hs none
  rw [List.append_nil] at hscan
  rw [findAll, scan, hscan, scanFrom, List.append_nil, List.filterMap_map,
    List.filterMap_eq_nil_iff]
  exact fun c _ => rfl

/-! ## What is read in a stretch -/

/-- Inside the stretch `s`, with `before` in front and `rest` behind, the extraction reads `ms` and
leaves `left`, and goes on at the start of `rest`. -/
def Reads (p : Pattern) (read : Option Char → Hit → Option α) (before : Option Char)
    (s rest : Text) (ms : List α) (left : Text) : Prop :=
  ∃ pieces, p.scanFrom 0 before (s ++ rest) =
      pieces ++ p.scanFrom 0 (s.getLast?.or before) rest ∧
    pieces.filterMap (readPiece read) = ms ∧ pieces.flatMap (leavePiece read) = left

theorem Reads.nil : p.Reads read before [] rest [] [] :=
  ⟨[], rfl, rfl, rfl⟩

theorem Reads.append (hs : p.Reads read before s (u ++ rest) ms left)
    (hu : p.Reads read (s.getLast?.or before) u rest ms' left') :
    p.Reads read before (s ++ u) rest (ms ++ ms') (left ++ left') := by
  obtain ⟨pieces, hscan, rfl, rfl⟩ := hs
  obtain ⟨pieces', hscan', rfl, rfl⟩ := hu
  refine ⟨pieces ++ pieces', ?_, List.filterMap_append, List.flatMap_append⟩
  rw [List.append_assoc, hscan, hscan', List.append_assoc, List.getLast?_append, Option.or_assoc]

/-- A stretch without a hit is left as it is. -/
theorem Reads.of_skips (hs : p.Skips s rest) : p.Reads read before s rest [] s := by
  refine ⟨s.map .loose, scanFrom_of_skips hs before, ?_, ?_⟩
  · simp [List.filterMap_map, Function.comp_def, readPiece]
  · simp [List.flatMap_map, leavePiece, readPiece, Piece.text]

/-- A hit that can be read leaves a space. -/
theorem Reads.of_hit {parts : List (Slot × Text)} {a : α} (hs : s ≠ [])
    (hp : p.Prefers (s ++ rest) ⟨s, parts, rest⟩) (ha : read before ⟨s, parts, rest⟩ = some a) :
    p.Reads read before s rest [a] [' '] := by
  have hfirst := first?_of_prefers hp hs before
  refine ⟨[.hit before ⟨s, parts, rest⟩], ?_, ?_, ?_⟩
  · rw [scanFrom_of_first? hfirst]
    rfl
  · simp [readPiece, ha]
  · simp [leavePiece, readPiece, ha]

/-- What is left of a stretch has no characters but those of the stretch, and spaces. -/
theorem Reads.mem_left {c : Char} (hs : p.Reads read before s rest ms left) (hc : c ∈ left) :
    c = ' ' ∨ c ∈ s := by
  obtain ⟨pieces, hscan, -, rfl⟩ := hs
  have htext := congrArg (List.flatMap Piece.text) hscan
  rw [List.flatMap_append, flatMap_text_scanFrom, flatMap_text_scanFrom, List.drop_zero,
    List.drop_zero] at htext
  have hpieces : s = pieces.flatMap Piece.text := List.append_cancel_right htext
  obtain ⟨piece, hpiece, hc⟩ := List.mem_flatMap.1 hc
  rw [leavePiece] at hc
  split at hc
  · exact .inl (List.mem_singleton.1 hc)
  · rw [hpieces]
    exact .inr (List.mem_flatMap.2 ⟨piece, hpiece, hc⟩)

/-- Where every hit is read, each of them is blanked out. -/
theorem extract_snd_of_isSome (hread : ∀ b h, (read b h).isSome = true) (t : Text) :
    (p.extract read t).2 = p.blankOut t := by
  have hleave (piece : Piece) : leavePiece read piece = leavePiece (fun _ h => some h) piece := by
    cases piece with
    | loose c => rfl
    | hit b h => rw [leavePiece, readPiece, hread, leavePiece]; rfl
  rw [blankOut, extract, extract, funext hleave]

theorem extract_of_reads {t : Text} (ht : p.Reads read none t [] ms left) :
    p.extract read t = (ms, left) := by
  obtain ⟨pieces, hscan, rfl, rfl⟩ := ht
  rw [List.append_nil] at hscan
  rw [extract, scan, hscan, scanFrom, List.append_nil]

/-- A text without a hit is left as it is. -/
theorem extract_of_skips {t : Text} (ht : p.Skips t []) : p.extract read t = ([], t) :=
  extract_of_reads (.of_skips ht)

/-- What is made of all hits is what an extraction of it reads. -/
theorem filterMap_findAll (p : Pattern) (f : Hit → Option α) (t : Text) :
    (p.findAll t).filterMap f = (p.extract (fun _ h => f h) t).1 := by
  rw [findAll, List.filterMap_filterMap, extract]
  congr 1
  funext piece
  cases piece <;> rfl

end OpeningHours.Pattern
