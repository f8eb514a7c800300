/-!
# Weekdays

The seven weekdays in their order from Monday, and sets of them. A set answers for each weekday
whether it is a member; `WeekdaySet.ext_contains` says that this is all there is to a set. The
range from one weekday to another runs forward and past Sunday if it has to.
-/

namespace OpeningHours

/-- A day of the week. -/
inductive Weekday where
  | mon
  | tue
  | wed
  | thu
  | fri
  | sat
  | sun
  deriving DecidableEq, Repr

namespace Weekday

/-- The weekdays from Monday to Sunday. -/
def all : List Weekday :=
  [.mon, .tue, .wed, .thu, .fri, .sat, .sun]

/-- The number of days since Monday. -/
def index : Weekday → Nat
  | .mon => 0
  | .tue => 1
  | .wed => 2
  | .thu => 3
  | .fri => 4
  | .sat => 5
  | .sun => 6

/-- The weekday a number of days after Monday. -/
def ofIndex (n : Nat) : Weekday :=
  match n % 7 with
  | 0 => .mon
  | 1 => .tue
  | 2 => .wed
  | 3 => .thu
  | 4 => .fri
  | 5 => .sat
  | _ => .sun

/-- The weekday after this one. -/
def next (d : Weekday) : Weekday :=
  ofIndex (d.index + 1)

/-- The weekday that a kanji stands for. -/
def ofKanji? (c : Char) : Option Weekday :=
  match c with
  | '月' => some .mon
  | '火' => some .tue
  | '水' => some .wed
  | '木' => some .thu
  | '金' => some .fri
  | '土' => some .sat
  | '日' => some .sun
  | _ => none

/-- Whether the character stands for a weekday. -/
def isKanji (c : Char) : Bool :=
  (ofKanji? c).isSome

@[simp] theorem ofIndex_index (d : Weekday) : ofIndex d.index = d := by
  cases d <;> rfl

theorem index_lt (d : Weekday) : d.index < 7 := by
  cases d <;> decide

end Weekday

/-- A set of weekdays. -/
structure WeekdaySet where
  mon : Bool := false
  tue : Bool := false
  wed : Bool := false
  thu : Bool := false
  fri : Bool := false
  sat : Bool := false
  sun : Bool := false
  deriving DecidableEq, Repr

namespace WeekdaySet

/-- Whether the weekday is a member. -/
def contains (s : WeekdaySet) : Weekday → Bool
  | .mon => s.mon
  | .tue => s.tue
  | .wed => s.wed
  | .thu => s.thu
  | .fri => s.fri
  | .sat => s.sat
  | .sun => s.sun

/-- The set of the weekdays that the test accepts. -/
def ofTest (p : Weekday → Bool) : WeekdaySet :=
  ⟨p .mon, p .tue, p .wed, p .thu, p .fri, p .sat, p .sun⟩

/-- The set without members. -/
def empty : WeekdaySet := {}

/-- Monday to Friday. -/
def workdays : WeekdaySet :=
  ⟨true, true, true, true, true, false, false⟩

/-- Saturday and Sunday. -/
def weekend : WeekdaySet :=
  ⟨false, false, false, false, false, true, true⟩

/-- Every weekday. -/
def every : WeekdaySet :=
  ofTest fun _ => true

/-- The set of one weekday. -/
def single (d : Weekday) : WeekdaySet :=
  ofTest (· == d)

/-- The members of either set. -/
def union (s t : WeekdaySet) : WeekdaySet :=
  ofTest fun d => s.contains d || t.contains d

/-- The set with one more member. -/
def insert (s : WeekdaySet) (d : Weekday) : WeekdaySet :=
  s.union (single d)

/-- The members of a list. -/
def ofList (ds : List Weekday) : WeekdaySet :=
  ds.foldl insert empty

/-- The members from Monday to Sunday. -/
def toList (s : WeekdaySet) : List Weekday :=
  Weekday.all.filter s.contains

/-- Whether the set has no member. -/
def isEmpty (s : WeekdaySet) : Bool :=
  s == empty

/-- How many members the set has. -/
def size (s : WeekdaySet) : Nat :=
  s.toList.length

/-- The weekdays from one to another, both included, running past Sunday if need be. -/
def range (first last : Weekday) : WeekdaySet :=
  ofTest fun d => (d.index + 7 - first.index) % 7 ≤ (last.index + 7 - first.index) % 7

/-! ## Membership is all there is to a set -/

@[simp] theorem contains_ofTest (p : Weekday → Bool) (d : Weekday) :
    (ofTest p).contains d = p d := by
  cases d <;> rfl

/-- Two sets with the same members are equal. -/
theorem ext_contains {s t : WeekdaySet} (h : ∀ d, s.contains d = t.contains d) : s = t := by
  obtain ⟨⟩ := s
  obtain ⟨⟩ := t
  simp only [mk.injEq]
  exact ⟨h .mon, h .tue, h .wed, h .thu, h .fri, h .sat, h .sun⟩

@[simp] theorem contains_empty (d : Weekday) : empty.contains d = false := by
  cases d <;> rfl

@[simp] theorem contains_single (d e : Weekday) : (single d).contains e = (e == d) := by
  simp [single]

@[simp] theorem contains_union (s t : WeekdaySet) (d : Weekday) :
    (s.union t).contains d = (s.contains d || t.contains d) := by
  simp [union]

@[simp] theorem contains_insert (s : WeekdaySet) (d e : Weekday) :
    (s.insert d).contains e = (s.contains e || e == d) := by
  simp [insert]

/-- The empty set is the only one without members. -/
theorem isEmpty_iff {s : WeekdaySet} : s.isEmpty = true ↔ ∀ d, s.contains d = false := by
  rw [isEmpty, beq_iff_eq]
  constructor
  · rintro rfl
    exact contains_empty
  · exact fun h => ext_contains fun d => (h d).trans (contains_empty d).symm

end WeekdaySet

end OpeningHours
