import Mathlib.Data.List.Basic
import OpeningHours.Proofs.Pattern.Alphabet

/-!
# Extraction from joined texts

A list of phrases is written with one character between neighbours and perhaps a rest at its end. If
each phrase is read alone, whatever phrases follow, then the extraction reads the phrases in their
order and leaves a text that is joined in the same way (**`extract_joined`**).
-/

namespace OpeningHours.Pattern

variable {α β : Type} {p : Pattern} {read : Option Char → Hit → Option α} {s : Char}
  {f g : β → Text} {ms : β → List α} {tail : Text}

/-- The texts of the members with `s` between them, and the rest. -/
def joined (s : Char) (f : β → Text) (xs : List β) (tail : Text) : Text :=
  [s].intercalate (xs.map f) ++ tail

theorem joined_singleton (s : Char) (f : β → Text) (x : β) (tail : Text) :
    joined s f [x] tail = f x ++ tail := by
  simp [joined]

theorem joined_cons_cons (s : Char) (f : β → Text) (x y : β) (xs : List β) (tail : Text) :
    joined s f (x :: y :: xs) tail = f x ++ s :: joined s f (y :: xs) tail := by
  simp [joined, List.intercalate_cons_cons]

/-- What may stand behind a phrase: the rest, or the other phrases. -/
theorem joined_cons (s : Char) (f : β → Text) (x : β) (xs : List β) (tail : Text) :
    joined s f (x :: xs) tail = f x ++ tail ∨
      ∃ y ys, joined s f (x :: xs) tail = f x ++ s :: joined s f (y :: ys) tail := by
  cases xs with
  | nil => exact .inl (joined_singleton s f x tail)
  | cons y ys => exact .inr ⟨y, ys, joined_cons_cons s f x y ys tail⟩

theorem joined_subset {alphabet : List Char} (hs : s ∈ alphabet) (hf : ∀ x, f x ⊆ alphabet)
    (htail : tail ⊆ alphabet) (xs : List β) : joined s f xs tail ⊆ alphabet := by
  match xs with
  | [] => exact htail
  | [x] =>
    rw [joined_singleton]
    exact List.append_subset.2 ⟨hf x, htail⟩
  | x :: y :: xs =>
    rw [joined_cons_cons]
    exact List.append_subset.2
      ⟨hf x, List.cons_subset.2 ⟨hs, joined_subset hs hf htail (y :: xs)⟩⟩

/-- Phrases that are passed over alone are passed over together. -/
theorem skips_joined (Ends : Text → Prop) (htail : Ends tail)
    (hnext : ∀ x xs, Ends (s :: joined s f (x :: xs) tail)) (hs : p.mayStart s = false)
    (hskip : ∀ x rest, Ends rest → p.Skips (f x) rest) (xs : List β) :
    p.Skips ([s].intercalate (xs.map f)) tail := by
  match xs with
  | [] => trivial
  | [x] => simpa using hskip x tail htail
  | x :: y :: xs =>
    have hx := hskip x _ (hnext y xs)
    have hmark : p.Skips [s] (joined s f (y :: xs) tail) :=
      skips_of_mayStart (by simpa using hs) _
    have ih := skips_joined Ends htail hnext hs hskip (y :: xs)
    rw [List.map_cons, List.map_cons, List.intercalate_cons_cons, List.append_assoc]
    exact skips_append.2 ⟨by simpa [joined] using hx, skips_append.2 ⟨hmark, ih⟩⟩

theorem reads_joined (Ends : Text → Prop) (htail : Ends tail)
    (hnext : ∀ x xs, Ends (s :: joined s f (x :: xs) tail)) (hs : p.mayStart s = false)
    (hread : ∀ x before rest, Ends rest → p.Reads read before (f x) rest (ms x) (g x))
    (before : Option Char) (xs : List β) :
    p.Reads read before ([s].intercalate (xs.map f)) tail (xs.flatMap ms)
      ([s].intercalate (xs.map g)) := by
  match xs with
  | [] => exact .nil
  | [x] =>
    have hx := hread x before tail htail
    simpa using hx
  | x :: y :: xs =>
    have hx : p.Reads read before (f x) (([s] ++ [s].intercalate ((y :: xs).map f)) ++ tail)
        (ms x) (g x) := by
      simpa [joined] using hread x before (s :: joined s f (y :: xs) tail) (hnext y xs)
    have hmark : p.Reads read ((f x).getLast?.or before) [s]
        ([s].intercalate ((y :: xs).map f) ++ tail) [] [s] :=
      .of_skips (skips_of_mayStart (by simpa using hs) _)
    have ih := reads_joined Ends htail hnext hs hread
      ([s].getLast?.or ((f x).getLast?.or before)) (y :: xs)
    have hboth := hx.append (hmark.append ih)
    simpa [List.intercalate_cons_cons] using hboth

/-- **Phrases that can be read alone are read one after the other.** -/
theorem extract_joined (Ends : Text → Prop) (htail : Ends tail)
    (hnext : ∀ x xs, Ends (s :: joined s f (x :: xs) tail)) (hs : p.mayStart s = false)
    (hskip : p.Skips tail [])
    (hread : ∀ x before rest, Ends rest → p.Reads read before (f x) rest (ms x) (g x))
    (xs : List β) : p.extract read (joined s f xs tail) = (xs.flatMap ms, joined s g xs tail) := by
  have hxs := reads_joined Ends htail hnext hs hread none xs
  have hrest : p.Reads read (([s].intercalate (xs.map f)).getLast?.or none) tail [] [] tail :=
    .of_skips hskip
  have hboth := Reads.append (by rwa [List.append_nil]) hrest
  rw [List.append_nil] at hboth
  exact extract_of_reads hboth

end OpeningHours.Pattern
