import Mathlib.Data.List.Basic
import OpeningHours.Proofs.Pattern.Digits
import OpeningHours.Proofs.Pattern.Lookahead
import OpeningHours.Proofs.Scope.StandingAlone

/-!
# Kanji that are attached to their neighbours

The `月` of `毎月` and `月末` is no Monday, and the `日` of `翌日`, `月末日` and `15日` is no Sunday:
each is attached to a character beside it. Blanking out words can take that character away and
leave the kanji next to a space. It does not if no hit starts with the `末` behind a `月` and none
ends in front of the kanji.

* `Attached before t`: every kanji of a weekday in the text is attached;
  **`Attached.not_namesWeekday`**: so no weekday stands on its own; `ListOf.attached`: in a list it
  is enough to look at the words;
* `LeavesAttached`, **`attached_blankOut`**: the patterns that leave kanji attached.
-/

namespace OpeningHours

open Pattern

variable {p : Pattern} {before before' : Option Char} {c : Char} {s t u : Text}
  {pieces : List Piece}

/-! ## Attached kanji -/

/-- Whether the kanji is attached to the character in front of it. -/
def attachesTo (before : Option Char) (c : Char) : Bool :=
  if c = '月' then before == some '毎'
  else c == '日' && before.any fun b => b.isDigit || b == '翌' || b == '末'

/-- Every kanji of a weekday in the text is attached to the character in front of it, or is the `月`
of `月末`. -/
def Attached : Option Char → Text → Prop
  | _, [] => True
  | before, c :: r =>
    (Weekday.isKanji c = true → attachesTo before c = true ∨ c = '月' ∧ r.head? = some '末') ∧
      Attached (some c) r

instance decidableAttached : (before : Option Char) → (t : Text) → Decidable (Attached before t)
  | _, [] => inferInstanceAs (Decidable True)
  | before, c :: r =>
    have := decidableAttached (some c) r
    inferInstanceAs (Decidable ((Weekday.isKanji c = true →
      attachesTo before c = true ∨ c = '月' ∧ r.head? = some '末') ∧ Attached (some c) r))

theorem attachesTo_none (c : Char) : attachesTo none c = false := by
  simp [attachesTo]

theorem attachesTo_some {b : Char} : attachesTo (some b) c = true ↔
    c = '月' ∧ b = '毎' ∨ c = '日' ∧ (b.isDigit = true ∨ b = '翌' ∨ b = '末') := by
  by_cases hc : c = '月'
  · simp [attachesTo, hc]
  · simp [attachesTo, hc, or_assoc]

/-- The characters that a kanji can be attached to. -/
def attachers : List Char :=
  '毎' :: '翌' :: '末' :: asciiDigits

theorem mem_attachers {b : Char} (hb : attachesTo (some b) c = true) : b ∈ attachers := by
  rcases attachesTo_some.1 hb with ⟨-, rfl⟩ | ⟨-, hdigit | rfl | rfl⟩
  · simp [attachers]
  · simp [attachers, mem_asciiDigits hdigit]
  · simp [attachers]
  · simp [attachers]

/-- Behind such a character no weekday stands on its own. -/
theorem not_mayPrecedeWeekday_of_attachesTo (hc : attachesTo before c = true) :
    before.all mayPrecedeWeekday = false := by
  cases before with
  | none => exact absurd hc (by simp [attachesTo_none])
  | some b =>
    have hall : attachers.all (fun b => !mayPrecedeWeekday b) = true := by decide
    simpa using List.all_eq_true.1 hall b (mem_attachers hc)

/-- **Where all kanji are attached, no weekday stands on its own.** -/
theorem Attached.not_namesWeekday (ht : Attached before t) : ¬ NamesWeekday before t := by
  induction t generalizing before with
  | nil => exact id
  | cons c r ih =>
    rintro (⟨hfree, hkanji, hend⟩ | hr)
    · rcases ht.1 hkanji with hbefore | ⟨-, hnext⟩
      · exact absurd hfree (by simp [not_mayPrecedeWeekday_of_attachesTo hbefore])
      · have hlast : mayFollowWeekday '末' = false := by decide
        simp [mayEndWeekday, hnext, hlast] at hend
    · exact ih ht.2 hr

/-- What stands in front of the text may change, if its first kanji stays attached. -/
theorem Attached.congr (ht : Attached before t)
    (hbefore : ∀ c ∈ t.head?, attachesTo before c = true → attachesTo before' c = true) :
    Attached before' t := by
  cases t with
  | nil => trivial
  | cons c r => exact ⟨fun hc => (ht.1 hc).imp_left (hbefore c rfl), ht.2⟩

theorem Attached.append (hs : Attached before s) (hu : Attached (s.getLast?.or before) u) :
    Attached before (s ++ u) := by
  induction s generalizing before with
  | nil => exact hu
  | cons c s ih =>
    rw [Text.getLast?_cons_or] at hu
    refine ⟨fun hc => (hs.1 hc).imp_right (And.imp_right fun hnext => ?_), ih hs.2 hu⟩
    show (s ++ u).head? = some '末'
    rw [List.head?_append, hnext]
    rfl

theorem Attached.of_append (h : Attached before (s ++ u)) : Attached (s.getLast?.or before) u := by
  induction s generalizing before with
  | nil => exact h
  | cons c s ih =>
    rw [Text.getLast?_cons_or]
    exact ih h.2

theorem ListOf.attached {marks : List Char} {words : List Text} (ht : ListOf marks words t)
    (hwords : ∀ w ∈ words, Attached none w)
    (hmarks : (marks.all fun c => !Weekday.isKanji c) = true) : Attached none t := by
  induction ht with
  | word hw => exact hwords _ hw
  | @cons w c t hw hc ht ih =>
    have htail : Attached (some c) t := ih.congr fun d _ hd => absurd hd (by simp [attachesTo_none])
    refine (hwords w hw).append ⟨fun hkanji => ?_, htail⟩
    simpa [hkanji] using List.all_eq_true.1 hmarks c hc

/-! ## Blanking out words -/

/-- No hit of the pattern ends with what the character behind it is attached to. -/
def LeavesAttached (p : Pattern) : Prop :=
  ∀ before t h, p.first? before t = some h →
    ∀ c ∈ h.rest.head?, attachesTo h.taken.getLast? c = false

/-- A pattern leaves kanji attached if its hits do not end with what kanji are attached to. -/
theorem leavesAttached_of_mayEnd (hp : (attachers.all fun b => !p.mayEnd b) = true) :
    LeavesAttached p := by
  intro before t h hfirst c hc
  rw [← Bool.not_eq_true]
  intro hattaches
  cases hlast : h.taken.getLast? with
  | none => simp [hlast, attachesTo_none] at hattaches
  | some b =>
    rw [hlast] at hattaches
    have hend := mayEnd_of_mem_hits (List.mem_of_find?_eq_some hfirst) hlast
    have hnone := List.all_eq_true.1 hp b (mem_attachers hattaches)
    simp [hend] at hnone

theorem Pattern.Scans.attached (hscan : p.Scans before t pieces) (hstart : p.mayStart '末' = false)
    (hleaves : LeavesAttached p) (ht : Attached before t)
    (hbefore : ∀ c ∈ t.head?, attachesTo before c = true → attachesTo before' c = true) :
    Attached before' (pieces.flatMap (leavePiece fun _ h => some h)) := by
  induction hscan generalizing before' with
  | nil => trivial
  | @loose before c r pieces hnone htail ih =>
    have hleft : Attached (some c) (pieces.flatMap (leavePiece fun _ h => some h)) :=
      ih ht.2 fun _ _ => id
    refine ⟨fun hc => (ht.1 hc).imp (hbefore c rfl) (And.imp_right fun hnext => ?_), hleft⟩
    -- No hit starts at the `末` behind the kanji, so it is left there.
    cases htail with
    | nil => exact hnext
    | loose hnone' htail' => exact hnext
    | hit hfirst htail' =>
      obtain ⟨d, hd⟩ := List.head?_eq_some_iff.1 hnext
      rw [hd, first?_of_mayStart hstart] at hfirst
      exact absurd hfirst (by simp)
  | @hit before t h pieces hfirst htail ih =>
    obtain ⟨hne, htext⟩ := first?_eq_some hfirst
    rw [← htext] at ht
    have hspace : Weekday.isKanji ' ' = false := by decide
    refine ⟨fun hc => absurd hc (by simp [hspace]), ih ht.of_append fun c hc hattaches => ?_⟩
    obtain ⟨b, hb⟩ :=
      Option.ne_none_iff_exists'.1 (fun hnil => hne (List.getLast?_eq_none_iff.1 hnil))
    rw [Hit.lastTaken, hb, Option.some_or, ← hb, hleaves _ _ h hfirst c hc] at hattaches
    exact absurd hattaches Bool.false_ne_true

/-- **Blanking out leaves kanji attached** if the pattern does and no hit starts with `末`. -/
theorem attached_blankOut (hstart : p.mayStart '末' = false) (hleaves : LeavesAttached p)
    (ht : Attached none t) : Attached none (p.blankOut t) :=
  (p.scans_scan t).attached hstart hleaves ht fun _ _ => id

end OpeningHours
