import Mathlib.Algebra.GroupWithZero.Nat
import Mathlib.Data.List.Chain
import Mathlib.Data.List.Induction
import Mathlib.Data.List.TakeWhile
import OpeningHours.Numeral.Kanji
import OpeningHours.Proofs.Numeral.Decimal

/-!
# The grammar and the value of kanji numerals

A kanji numeral is a text of digits and units in which no two digits stand side by side behind the
first unit (`IsNumeral`). The units cut it into groups of digits: its value is what the units count,
each as often as the group in front of it says, and the last group (`value`).

Both are said of the text as a whole, while a numeral is read from the left. What has been read is
one function of the text in front (`progress`), and a text can be read on exactly if it is spelled
as a numeral and its first group fits into 32 bits (**`foldlM_add?_eq_some_iff`**). From this follow
the numbers that are read (`readKanji?_eq_some_iff`) and, with the decimal numerals,
**`reads_exactly_numerals`**.
-/

namespace OpeningHours.Kanji

open Text

variable {t : Text} {c : Char} {s : Progress} {n : UInt32}

/-! ## Digits and units -/

/-- The digits, each at the place of its number. -/
def digitsInOrder : Text :=
  "〇一二三四五六七八九".toList

/-- Whether the character is a kanji digit. There are two for zero. -/
def isDigit (c : Char) : Bool :=
  ('零' :: digitsInOrder).contains c

/-- Whether the character is a kanji unit. -/
def isUnit (c : Char) : Bool :=
  ['百', '十'].contains c

/-- The number that a digit stands for. -/
def digitValue (c : Char) : Nat :=
  if c = '零' then 0 else digitsInOrder.idxOf c

/-- The number that a unit stands for. -/
def unitValue (c : Char) : Nat :=
  if c = '百' then 100 else 10

theorem digit?_eq (c : Char) :
    digit? c = if isDigit c then some (UInt32.ofNat (digitValue c)) else none := by
  split
  · next hc =>
    have hall : (('零' :: digitsInOrder).all fun c =>
        digit? c == some (UInt32.ofNat (digitValue c))) = true := by decide
    exact eq_of_beq (List.all_eq_true.1 hall c (List.contains_iff_mem.1 hc))
  · next hc =>
    unfold digit?
    split <;> first | rfl | exact absurd (by decide) hc

theorem unit?_eq (c : Char) :
    unit? c = if isUnit c then some (UInt32.ofNat (unitValue c)) else none := by
  split
  · next hc =>
    have hall : (['百', '十'].all fun c =>
        unit? c == some (UInt32.ofNat (unitValue c))) = true := by decide
    exact eq_of_beq (List.all_eq_true.1 hall c (List.contains_iff_mem.1 hc))
  · next hc =>
    unfold unit?
    split <;> first | rfl | exact absurd (by decide) hc

theorem isDigit_of_isUnit (hc : isUnit c = true) : isDigit c = false := by
  have hall : (['百', '十'].all fun c => !isDigit c) = true := by decide
  simpa using List.all_eq_true.1 hall c (List.contains_iff_mem.1 hc)

theorem isUnit_of_isDigit (hc : isDigit c = true) : isUnit c = false := by
  by_contra hunit
  rw [isDigit_of_isUnit (by simpa using hunit)] at hc
  exact Bool.false_ne_true hc

theorem digitValue_lt (hc : isDigit c = true) : digitValue c < 10 := by
  rw [digitValue]
  split
  · decide
  · next hzero =>
    have hmem := List.contains_iff_mem.1 hc
    exact List.idxOf_lt_length_of_mem ((List.mem_cons.1 hmem).resolve_left hzero)

theorem unitValue_pos (c : Char) : 0 < unitValue c := by
  rw [unitValue]
  split <;> decide

theorem toNat_digitValue (hc : isDigit c = true) :
    (UInt32.ofNat (digitValue c)).toNat = digitValue c :=
  UInt32.toNat_ofNat_of_lt' (Nat.lt_trans (digitValue_lt hc) (by decide))

theorem toNat_unitValue (c : Char) : (UInt32.ofNat (unitValue c)).toNat = unitValue c := by
  rw [unitValue]
  split <;> rfl

theorem digit?_eq_some_iff :
    digit? c = some n ↔ isDigit c = true ∧ n = UInt32.ofNat (digitValue c) := by
  rw [digit?_eq, Option.ite_none_right_eq_some, Option.some.injEq, @eq_comm _ n]

theorem unit?_eq_some_iff :
    unit? c = some n ↔ isUnit c = true ∧ n = UInt32.ofNat (unitValue c) := by
  rw [unit?_eq, Option.ite_none_right_eq_some, Option.some.injEq, @eq_comm _ n]

theorem digit?_eq_none_iff : digit? c = none ↔ isDigit c = false := by
  simp [digit?_eq]

theorem unit?_eq_none_iff : unit? c = none ↔ isUnit c = false := by
  simp [unit?_eq]

/-! ## Numerals -/

/-- The text is made of digits and units, and behind the first unit no two digits stand side by
side. -/
structure Spelled (t : Text) : Prop where
  made : ∀ c ∈ t, isDigit c = true ∨ isUnit c = true
  apart : (t.dropWhile isDigit).IsChain fun a b => ¬ (isDigit a = true ∧ isDigit b = true)

/-- The text is a kanji numeral. -/
structure IsNumeral (t : Text) : Prop extends Spelled t where
  ne_nil : t ≠ []

instance (t : Text) : Decidable (Spelled t) :=
  decidable_of_iff ((t.all fun c => isDigit c || isUnit c) = true ∧
    (t.dropWhile isDigit).IsChain fun a b => ¬ (isDigit a = true ∧ isDigit b = true))
    ⟨fun h => ⟨by simpa using h.1, h.2⟩, fun h => ⟨by simpa using h.made, h.apart⟩⟩

instance (t : Text) : Decidable (IsNumeral t) :=
  decidable_of_iff (Spelled t ∧ t ≠ []) ⟨fun h => ⟨h.1, h.2⟩, fun h => ⟨h.toSpelled, h.ne_nil⟩⟩

/-- The units of a text, each with the characters between it and the unit before, and the characters
behind the last unit. -/
def groups : Text → List (Text × Char) × Text
  | [] => ([], [])
  | c :: r =>
    if isUnit c then (([], c) :: (groups r).1, (groups r).2)
    else
      match groups r with
      | ([], last) => ([], c :: last)
      | ((group, unit) :: terms, last) => ((c :: group, unit) :: terms, last)

/-- The decimal value of a group of digits. -/
def groupValue (group : Text) : Nat :=
  group.foldl (fun n c => 10 * n + digitValue c) 0

/-- How often a unit counts behind a group of digits: once if the group is empty. -/
def count (group : Text) : Nat :=
  if group = [] then 1 else groupValue group

/-- What a unit counts with the group in front of it. -/
def termValue (term : Text × Char) : Nat :=
  count term.1 * unitValue term.2

/-- What the units of a text count together. -/
def unitsValue (t : Text) : Nat :=
  ((groups t).1.map termValue).sum

/-- The value of a numeral. -/
def value (t : Text) : Nat :=
  unitsValue t + groupValue (groups t).2

/-- The digits in front of the first unit. -/
def firstGroup (t : Text) : Text :=
  t.takeWhile isDigit

/-! ## One character more -/

theorem groupValue_concat (group : Text) (c : Char) :
    groupValue (group ++ [c]) = 10 * groupValue group + digitValue c := by
  simp [groupValue]

theorem groups_concat_unit (hc : isUnit c = true) (t : Text) :
    groups (t ++ [c]) = ((groups t).1 ++ [((groups t).2, c)], []) := by
  induction t with
  | nil => simp [groups, hc]
  | cons d t ih =>
    rw [List.cons_append, groups, groups, ih]
    split
    · rfl
    · cases hgroups : groups t with
      | mk terms last => cases terms <;> rfl

theorem groups_concat (hc : isUnit c = false) (t : Text) :
    groups (t ++ [c]) = ((groups t).1, (groups t).2 ++ [c]) := by
  induction t with
  | nil => simp [groups, hc]
  | cons d t ih =>
    rw [List.cons_append, groups, groups, ih]
    split
    · rfl
    · cases hgroups : groups t with
      | mk terms last => cases terms <;> rfl

theorem groups_of_no_unit (ht : t.any isUnit = false) : groups t = ([], t) := by
  induction t with
  | nil => rfl
  | cons c t ih =>
    rw [List.any_cons, Bool.or_eq_false_iff] at ht
    rw [groups, ht.1, ih ht.2, if_neg Bool.false_ne_true]

theorem last_of_no_unit (ht : t.any isUnit = false) : (groups t).2 = t :=
  congrArg Prod.snd (groups_of_no_unit ht)

/-- Digits behind the last unit are those that end the text. -/
theorem last_eq_nil_iff (hmade : ∀ c ∈ t, isDigit c = true ∨ isUnit c = true) :
    (groups t).2 = [] ↔ ∀ c ∈ t.getLast?, isDigit c = false := by
  induction t using List.reverseRecOn with
  | nil => simp [groups]
  | append_singleton t c ih =>
    rw [List.getLast?_concat]
    rcases hmade c (by simp) with hc | hc
    · simp [groups_concat (isUnit_of_isDigit hc), hc]
    · simp [groups_concat_unit hc, isDigit_of_isUnit hc]

theorem dropWhile_eq_nil_iff (hmade : ∀ c ∈ t, isDigit c = true ∨ isUnit c = true) :
    t.dropWhile isDigit = [] ↔ t.any isUnit = false := by
  rw [List.dropWhile_eq_nil_iff, List.any_eq_false]
  constructor
  · intro h c hc
    simp [isUnit_of_isDigit (h c hc)]
  · intro h c hc
    exact (hmade c hc).resolve_right (h c hc)

theorem getLast?_dropWhile (h : t.dropWhile isDigit ≠ []) :
    (t.dropWhile isDigit).getLast? = t.getLast? := by
  conv_rhs => rw [← List.takeWhile_append_dropWhile (p := isDigit) (l := t)]
  rw [List.getLast?_append_of_ne_nil _ h]

theorem Spelled.of_concat (h : Spelled (t ++ [c])) : Spelled t := by
  refine ⟨fun d hd => h.made d (by simp [hd]), ?_⟩
  have happart := h.apart
  rw [List.dropWhile_append] at happart
  split at happart
  · next hempty => simp [List.isEmpty_iff.1 hempty]
  · exact (List.isChain_append.1 happart).1

/-- A unit may stand anywhere. -/
theorem spelled_concat_unit (hc : isUnit c = true) : Spelled (t ++ [c]) ↔ Spelled t := by
  refine ⟨Spelled.of_concat, fun h => ⟨?_, ?_⟩⟩
  · intro d hd
    rcases List.mem_append.1 hd with hd | hd
    · exact h.made d hd
    · rw [List.mem_singleton.1 hd]
      exact .inr hc
  · have hnot := isDigit_of_isUnit hc
    rw [List.dropWhile_append]
    split
    · simp [hnot]
    · refine List.isChain_append.2 ⟨h.apart, .singleton c, ?_⟩
      simp [hnot]

/-- A digit may stand behind a unit, and behind digits that no unit is in front of. -/
theorem spelled_concat_digit (hc : isDigit c = true) :
    Spelled (t ++ [c]) ↔ Spelled t ∧ ((groups t).2 = [] ∨ t.any isUnit = false) := by
  constructor
  · intro h
    have ht := h.of_concat
    refine ⟨ht, ?_⟩
    rw [last_eq_nil_iff ht.made, ← dropWhile_eq_nil_iff ht.made]
    by_cases hnil : t.dropWhile isDigit = []
    · exact .inr hnil
    · left
      have happart := h.apart
      rw [List.dropWhile_append, if_neg (by simpa using hnil), List.isChain_append,
        getLast?_dropWhile hnil] at happart
      intro d hd
      have hneighbours := happart.2.2 d hd c rfl
      simpa [hc] using hneighbours
  · rintro ⟨ht, hplace⟩
    refine ⟨?_, ?_⟩
    · intro d hd
      rcases List.mem_append.1 hd with hd | hd
      · exact ht.made d hd
      · rw [List.mem_singleton.1 hd]
        exact .inl hc
    · rw [List.dropWhile_append]
      split
      · simp [hc]
      · next hne =>
        have hnil : t.dropWhile isDigit ≠ [] := by simpa using hne
        have hunit : t.any isUnit ≠ false := (dropWhile_eq_nil_iff ht.made).not.1 hnil
        have hlast := (last_eq_nil_iff ht.made).1 (hplace.resolve_right hunit)
        refine List.isChain_append.2 ⟨ht.apart, .singleton c, ?_⟩
        rw [getLast?_dropWhile hnil]
        intro a ha b hb hdigits
        rw [hlast a ha] at hdigits
        exact Bool.false_ne_true hdigits.1

/-! ## The first group -/

theorem firstGroup_of_no_unit (hmade : ∀ c ∈ t, isDigit c = true ∨ isUnit c = true)
    (ht : t.any isUnit = false) : firstGroup t = t := by
  rw [firstGroup, List.takeWhile_eq_self_iff]
  exact List.dropWhile_eq_nil_iff.1 ((dropWhile_eq_nil_iff hmade).2 ht)

/-- The first group ends with the first unit. -/
theorem firstGroup_append (ht : t.any isUnit = true) (r : Text) :
    firstGroup (t ++ r) = firstGroup t := by
  induction t with
  | nil => simp at ht
  | cons c t ih =>
    rw [firstGroup, firstGroup, List.cons_append, List.takeWhile_cons, List.takeWhile_cons]
    split
    · next hc =>
      rw [List.any_cons, isUnit_of_isDigit hc, Bool.false_or] at ht
      exact congrArg (c :: ·) (ih ht)
    · rfl

theorem firstGroup_concat_of_not (hc : isDigit c = false) (t : Text) :
    firstGroup (t ++ [c]) = firstGroup t := by
  rw [firstGroup, firstGroup, List.takeWhile_append]
  split
  · next h =>
    rw [List.takeWhile_cons_of_neg (by simp [hc]), List.append_nil]
    exact ((List.takeWhile_prefix isDigit).eq_of_length h).symm
  · rfl

/-! ## How far a numeral has been read -/

/-- The text is spelled as a numeral, and its first group of digits fits into 32 bits. -/
structure Readable (t : Text) : Prop extends Spelled t where
  fits : groupValue (firstGroup t) < UInt32.size

/-- What has been read behind a text, as far as 32 bits hold it. -/
def progress (t : Text) : Progress where
  total := UInt32.ofNat (unitsValue t)
  waiting := if (groups t).2 = [] then none else some (UInt32.ofNat (groupValue (groups t).2))
  hasUnit := t.any isUnit

theorem readable_nil : Readable [] where
  made := by simp
  apart := .nil
  fits := by decide

theorem readable_concat_unit (hc : isUnit c = true) : Readable (t ++ [c]) ↔ Readable t := by
  have hfirst := firstGroup_concat_of_not (isDigit_of_isUnit hc) t
  constructor
  · intro h
    exact ⟨(spelled_concat_unit hc).1 h.toSpelled, hfirst ▸ h.fits⟩
  · intro h
    exact ⟨(spelled_concat_unit hc).2 h.toSpelled, hfirst.symm ▸ h.fits⟩

theorem readable_concat_digit (hc : isDigit c = true) :
    Readable (t ++ [c]) ↔
      Readable t ∧ ((groups t).2 = [] ∨ t.any isUnit = false ∧ groupValue (t ++ [c]) < UInt32.size) := by
  by_cases ht : t.any isUnit = true
  · -- Behind a unit nothing but the place of the digit counts.
    have hfirst := firstGroup_append ht [c]
    simp only [ht, Bool.true_eq_false, false_and, or_false]
    constructor
    · intro h
      obtain ⟨hspelled, hplace⟩ := (spelled_concat_digit hc).1 h.toSpelled
      exact ⟨⟨hspelled, hfirst ▸ h.fits⟩, by simpa [ht] using hplace⟩
    · rintro ⟨h, hplace⟩
      exact ⟨(spelled_concat_digit hc).2 ⟨h.toSpelled, .inl hplace⟩, hfirst.symm ▸ h.fits⟩
  · rw [Bool.not_eq_true] at ht
    have hunits : (t ++ [c]).any isUnit = false := by simp [ht, isUnit_of_isDigit hc]
    constructor
    · intro h
      have hspelled := h.toSpelled.of_concat
      have hfits := h.fits
      rw [firstGroup_of_no_unit h.made hunits] at hfits
      refine ⟨⟨hspelled, ?_⟩, .inr ⟨ht, hfits⟩⟩
      rw [groupValue_concat] at hfits
      rw [firstGroup_of_no_unit hspelled.made ht]
      omega
    · rintro ⟨h, hplace⟩
      have hspelled := (spelled_concat_digit hc).2 ⟨h.toSpelled, .inr ht⟩
      refine ⟨hspelled, ?_⟩
      rw [firstGroup_of_no_unit hspelled.made hunits]
      rcases hplace with hnil | ⟨-, hfits⟩
      · have hlt := digitValue_lt hc
        rw [last_of_no_unit ht] at hnil
        rw [hnil, groupValue_concat]
        simp only [groupValue, List.foldl_nil, UInt32.size]
        omega
      · exact hfits

theorem Readable.of_concat (h : Readable (t ++ [c])) : Readable t := by
  rcases h.made c (by simp) with hc | hc
  · exact ((readable_concat_digit hc).1 h).1
  · exact (readable_concat_unit hc).1 h

/-- The last group of digits always fits: it is the first one, or one digit. -/
theorem Readable.last_lt (h : Readable t) : groupValue (groups t).2 < UInt32.size := by
  by_cases ht : t.any isUnit = true
  · rcases List.eq_nil_or_concat' t with rfl | ⟨r, c, rfl⟩
    · simp at ht
    · rcases h.made c (by simp) with hc | hc
      · have hr : r.any isUnit = true := by simpa [isUnit_of_isDigit hc] using ht
        obtain ⟨-, hplace⟩ := (readable_concat_digit hc).1 h
        have hnil : (groups r).2 = [] := by simpa [hr] using hplace
        have hlt := digitValue_lt hc
        rw [groups_concat (isUnit_of_isDigit hc), hnil, groupValue_concat]
        simp only [groupValue, List.foldl_nil, UInt32.size]
        omega
      · have hnone : groupValue [] < UInt32.size := by decide
        rwa [groups_concat_unit hc]
  · rw [Bool.not_eq_true] at ht
    have hfits := h.fits
    rw [firstGroup_of_no_unit h.made ht] at hfits
    rwa [last_of_no_unit ht]

/-! ## Reading on -/

theorem unitsValue_concat_unit (hc : isUnit c = true) (t : Text) :
    unitsValue (t ++ [c]) = unitsValue t + count (groups t).2 * unitValue c := by
  simp [unitsValue, groups_concat_unit hc, termValue]

theorem unitsValue_concat (hc : isUnit c = false) (t : Text) :
    unitsValue (t ++ [c]) = unitsValue t := by
  rw [unitsValue, groups_concat hc, unitsValue]

theorem getD_one_waiting (t : Text) : (progress t).waiting.getD 1 = UInt32.ofNat (count (groups t).2) := by
  rw [progress, count]
  split <;> rfl

theorem addUnit_progress {unit : UInt32} (hc : unit? c = some unit) (t : Text) :
    (progress t).addUnit unit = progress (t ++ [c]) := by
  obtain ⟨hunit, hvalue⟩ := unit?_eq_some_iff.1 hc
  have htotal : UInt32.ofNat (unitsValue t) + UInt32.ofNat (count (groups t).2) * unit =
      UInt32.ofNat (unitsValue (t ++ [c])) := by
    rw [unitsValue_concat_unit hunit, UInt32.ofNat_add, UInt32.ofNat_mul, ← hvalue]
  rw [Progress.addUnit, getD_one_waiting, progress, htotal, progress, groups_concat_unit hunit]
  simp [hunit]

theorem addDigit?_progress {digit : UInt32} (hc : digit? c = some digit) (ht : Readable t) :
    (progress t).addDigit? digit = some s ↔ Readable (t ++ [c]) ∧ s = progress (t ++ [c]) := by
  obtain ⟨hdigit, hword⟩ := digit?_eq_some_iff.1 hc
  have hvalue : digit.toNat = digitValue c := by rw [hword, toNat_digitValue hdigit]
  have hunit := isUnit_of_isDigit hdigit
  have hprogress : progress (t ++ [c]) = { progress t with
      waiting := some (UInt32.ofNat (groupValue ((groups t).2 ++ [c]))) } := by
    simp [progress, unitsValue_concat hunit, groups_concat hunit, hunit]
  rw [Progress.addDigit?, readable_concat_digit hdigit, hprogress]
  by_cases hnil : (groups t).2 = []
  · have hone : UInt32.ofNat (groupValue [c]) = digit := by
      rw [← List.nil_append [c], groupValue_concat, ← hvalue]
      simp [groupValue]
    simp only [progress, hnil, if_true, List.nil_append, hone, ht, true_or, and_true, true_and,
      Option.some.injEq]
    exact eq_comm
  · have hwaiting : (progress t).waiting = some (UInt32.ofNat (groupValue (groups t).2)) :=
      if_neg hnil
    have hgroup : (UInt32.ofNat (groupValue (groups t).2)).toNat = groupValue (groups t).2 :=
      UInt32.toNat_ofNat_of_lt' ht.last_lt
    have hhasUnit : (progress t).hasUnit = t.any isUnit := rfl
    rw [hwaiting]
    simp only [hhasUnit, hgroup, hvalue, ← groupValue_concat, hnil, false_or, ht, true_and]
    by_cases hany : t.any isUnit = true
    · simp [hany]
    · rw [Bool.not_eq_true] at hany
      simp only [hany, last_of_no_unit hany, Bool.false_eq_true, if_false, true_and, word?]
      by_cases hfits : groupValue (t ++ [c]) < UInt32.size
      · simp [hfits, eq_comm]
      · simp [hfits]

/-- **One character more** can be read if the text stays readable with it. -/
theorem add?_progress (ht : Readable t) :
    (progress t).add? c = some s ↔ Readable (t ++ [c]) ∧ s = progress (t ++ [c]) := by
  rw [Progress.add?]
  cases hunit : unit? c with
  | some unit =>
    have hc := (unit?_eq_some_iff.1 hunit).1
    simp only [addUnit_progress hunit, readable_concat_unit hc, ht, true_and, Option.some.injEq]
    exact eq_comm
  | none =>
    cases hdigit : digit? c with
    | some digit => exact addDigit?_progress hdigit ht
    | none =>
      have hnot : ¬ Readable (t ++ [c]) := fun h => by
        simpa [digit?_eq_none_iff.1 hdigit, unit?_eq_none_iff.1 hunit] using h.made c (by simp)
      simp [hnot]

/-- **A text can be read on** exactly if it is readable, and then what has been read is known. -/
theorem foldlM_add?_eq_some_iff :
    t.foldlM Progress.add? {} = some s ↔ Readable t ∧ s = progress t := by
  induction t using List.reverseRecOn generalizing s with
  | nil =>
    have hstart : progress [] = {} := rfl
    simp [readable_nil, hstart, eq_comm]
  | append_singleton t c ih =>
    rw [List.foldlM_append, Option.bind_eq_bind, Option.bind_eq_some_iff]
    simp only [ih, List.foldlM_cons, List.foldlM_nil, Option.bind_eq_bind, Option.pure_def,
      Option.bind_fun_some]
    constructor
    · rintro ⟨-, ⟨ht, rfl⟩, hstep⟩
      exact (add?_progress ht).1 hstep
    · rintro h
      exact ⟨progress t, ⟨h.1.of_concat, rfl⟩, (add?_progress h.1.of_concat).2 h⟩

/-! ## Kanji numerals that are read -/

theorem getD_zero_waiting (t : Text) :
    (progress t).waiting.getD 0 = UInt32.ofNat (groupValue (groups t).2) := by
  rw [progress]
  split
  · next hnil =>
    rw [hnil]
    rfl
  · rfl

theorem result_progress (t : Text) : (progress t).result = UInt32.ofNat (value t) := by
  rw [Progress.result, getD_zero_waiting, value, UInt32.ofNat_add, progress]

/-- The number that is read is the value of the numeral, as far as 32 bits hold it. -/
theorem readKanji?_eq_some_iff :
    readKanji? t = some n ↔ Readable t ∧ n = UInt32.ofNat (value t) := by
  rw [readKanji?, Option.map_eq_some_iff]
  simp only [foldlM_add?_eq_some_iff]
  constructor
  · rintro ⟨-, ⟨ht, rfl⟩, rfl⟩
    exact ⟨ht, result_progress t⟩
  · rintro ⟨ht, rfl⟩
    exact ⟨progress t, ⟨ht, rfl⟩, result_progress t⟩

/-- The first unit counts as often as the first group says. -/
theorem exists_groups_eq (hmade : ∀ c ∈ t, isDigit c = true ∨ isUnit c = true)
    (ht : t.any isUnit = true) : ∃ unit terms, (groups t).1 = (firstGroup t, unit) :: terms := by
  induction t with
  | nil => simp at ht
  | cons c t ih =>
    obtain ⟨hc, hmade⟩ := List.forall_mem_cons.1 hmade
    rcases hc with hc | hc
    · have hunit := isUnit_of_isDigit hc
      obtain ⟨unit, terms, hterms⟩ := ih hmade (by simpa [hunit] using ht)
      have hgroups : groups t = ((firstGroup t, unit) :: terms, (groups t).2) := by rw [← hterms]
      have hfirst : firstGroup (c :: t) = c :: firstGroup t := List.takeWhile_cons_of_pos hc
      refine ⟨unit, terms, ?_⟩
      rw [groups, hunit, if_neg Bool.false_ne_true, hgroups, hfirst]
    · have hnot : ¬ isDigit c = true := by simp [isDigit_of_isUnit hc]
      refine ⟨c, (groups t).1, ?_⟩
      rw [groups, if_pos hc, firstGroup, List.takeWhile_cons_of_neg hnot]

/-- A numeral is worth at least its first group. -/
theorem groupValue_firstGroup_le (h : Spelled t) : groupValue (firstGroup t) ≤ value t := by
  by_cases ht : t.any isUnit = true
  · obtain ⟨unit, terms, hterms⟩ := exists_groups_eq h.made ht
    have hcount : groupValue (firstGroup t) ≤ count (firstGroup t) := by
      rw [count]
      split
      · next hnil => rw [hnil]; exact Nat.zero_le 1
      · exact Nat.le_refl _
    calc groupValue (firstGroup t) ≤ count (firstGroup t) := hcount
      _ ≤ count (firstGroup t) * unitValue unit := Nat.le_mul_of_pos_right _ (unitValue_pos unit)
      _ ≤ unitsValue t := by
        rw [unitsValue, hterms, List.map_cons, List.sum_cons, termValue]
        exact Nat.le_add_right _ _
      _ ≤ value t := Nat.le_add_right _ _
  · rw [Bool.not_eq_true] at ht
    rw [firstGroup_of_no_unit h.made ht, value, last_of_no_unit ht]
    exact Nat.le_add_left _ _

theorem Spelled.readable (h : Spelled t) (hvalue : value t < UInt32.size) : Readable t :=
  ⟨h, Nat.lt_of_le_of_lt (groupValue_firstGroup_le h) hvalue⟩

/-- A text of digits is spelled as a numeral and is one group. -/
theorem spelled_of_digits (ht : ∀ c ∈ t, isDigit c = true) :
    Spelled t ∧ firstGroup t = t ∧ value t = groupValue t := by
  have hunits : t.any isUnit = false :=
    List.any_eq_false.2 fun c hc => by simp [isUnit_of_isDigit (ht c hc)]
  refine ⟨⟨fun c hc => .inl (ht c hc), ?_⟩, List.takeWhile_eq_self_iff.2 ht, ?_⟩
  · rw [List.dropWhile_eq_nil_iff.2 ht]
    exact .nil
  · simp [value, unitsValue, groups_of_no_unit hunits]

/-! ## Numerals of either kind -/

theorem read?_of_decimal (h : Decimal.IsNumeral (trim t)) :
    read? t = word? (Decimal.value (trim t)) := by
  have hne : (trim t).isEmpty = false := by simpa using h.ne_nil
  have hdigits : (trim t).all Char.isDigit = true := List.all_eq_true.2 h.made
  rw [read?, hne, hdigits]
  rfl

theorem read?_of_not_decimal (h : ¬ Decimal.IsNumeral (trim t)) (hne : trim t ≠ []) :
    read? t = readKanji? (trim t) := by
  have hempty : (trim t).isEmpty = false := by simpa using hne
  have hdigits : ¬ (trim t).all Char.isDigit = true :=
    fun hall => h ⟨hne, List.all_eq_true.1 hall⟩
  rw [read?, hempty, if_neg Bool.false_ne_true, if_neg hdigits]

theorem read?_of_trim_eq_nil (h : trim t = []) : read? t = none := by
  rw [read?, h]
  rfl

/-- Kanji of numerals are no ASCII digits. -/
theorem not_isDigit_of_kanji (hc : isDigit c = true ∨ isUnit c = true) : c.isDigit = false := by
  have hdigits : (('零' :: digitsInOrder).all fun c => !c.isDigit) = true := by decide
  have hunits : (['百', '十'].all fun c => !c.isDigit) = true := by decide
  rcases hc with hc | hc
  · simpa using List.all_eq_true.1 hdigits c (List.contains_iff_mem.1 hc)
  · simpa using List.all_eq_true.1 hunits c (List.contains_iff_mem.1 hc)

theorem not_decimal_of_spelled (h : Spelled t) : ¬ Decimal.IsNumeral t := by
  intro hdecimal
  obtain ⟨c, r, rfl⟩ := List.exists_cons_of_ne_nil hdecimal.ne_nil
  have hascii := hdecimal.made c List.mem_cons_self
  rw [not_isDigit_of_kanji (h.made c List.mem_cons_self)] at hascii
  exact Bool.false_ne_true hascii

/-- What is read of a kanji numeral: nothing if its first group does not fit into 32 bits, else its
value, as far as 32 bits hold it. -/
theorem read?_of_isNumeral (h : IsNumeral (trim t)) :
    read? t =
      if groupValue (firstGroup (trim t)) < UInt32.size then some (UInt32.ofNat (value (trim t)))
      else none := by
  rw [read?_of_not_decimal (not_decimal_of_spelled h.toSpelled) h.ne_nil]
  split
  · next hfits => exact readKanji?_eq_some_iff.2 ⟨⟨h.toSpelled, hfits⟩, rfl⟩
  · next hfits =>
    rw [Option.eq_none_iff_forall_ne_some]
    exact fun n hn => hfits (readKanji?_eq_some_iff.1 hn).1.fits

/-- The ASCII digit for a kanji digit. -/
def asciiDigit (c : Char) : Char :=
  (digitValue c).digitChar

theorem isDigit_asciiDigit (hc : isDigit c = true) : (asciiDigit c).isDigit = true := by
  have hall : ∀ d : Fin 10, (d : Nat).digitChar.isDigit = true := by decide
  exact hall ⟨digitValue c, digitValue_lt hc⟩

theorem value_map_asciiDigit (ht : ∀ c ∈ t, isDigit c = true) :
    Decimal.value (t.map asciiDigit) = groupValue t := by
  rw [Decimal.value, Decimal.valueFrom, List.foldl_map, groupValue]
  refine List.foldl_ext _ _ 0 fun n c hc => ?_
  rw [asciiDigit, Decimal.digitValue_digitChar (digitValue_lt (ht c hc))]

/-- **Digits in places are read alike in kanji and in ASCII.** -/
theorem read?_map_asciiDigit (ht : ∀ c ∈ trim t, isDigit c = true) :
    read? ((trim t).map asciiDigit) = read? t := by
  have htrim : trim ((trim t).map asciiDigit) = (trim t).map asciiDigit := by
    refine trim_of_not_isBlank fun d hd => not_isBlank_of_isDigit ?_
    obtain ⟨c, hc, rfl⟩ := List.mem_map.1 hd
    exact isDigit_asciiDigit (ht c hc)
  by_cases hne : trim t = []
  · rw [read?_of_trim_eq_nil hne, read?_of_trim_eq_nil (by rw [htrim, hne]; rfl)]
  · have hdecimal : Decimal.IsNumeral (trim ((trim t).map asciiDigit)) := by
      rw [htrim]
      refine ⟨by simpa using hne, fun d hd => ?_⟩
      obtain ⟨c, hc, rfl⟩ := List.mem_map.1 hd
      exact isDigit_asciiDigit (ht c hc)
    obtain ⟨hspelled, hfirst, hvalue⟩ := spelled_of_digits ht
    rw [read?_of_decimal hdecimal, htrim, value_map_asciiDigit ht, read?_of_isNumeral ⟨hspelled, hne⟩,
      hfirst, hvalue, word?]

/-- **What is read is the value of a numeral**, blanks at the ends aside. A decimal numeral is read
exactly if its value fits into 32 bits, and a kanji numeral is read if it does; no other text is
read. Digits in places are read alike in kanji and in ASCII. -/
theorem reads_exactly_numerals (t : Text) :
    (Decimal.IsNumeral (trim t) → read? t =
      if Decimal.value (trim t) < 2 ^ 32 then some (UInt32.ofNat (Decimal.value (trim t)))
      else none) ∧
    (IsNumeral (trim t) → value (trim t) < 2 ^ 32 →
      read? t = some (UInt32.ofNat (value (trim t)))) ∧
    (¬ Decimal.IsNumeral (trim t) → ¬ IsNumeral (trim t) → read? t = none) ∧
    ((∀ c ∈ trim t, isDigit c = true) → read? ((trim t).map asciiDigit) = read? t) := by
  refine ⟨read?_of_decimal, ?_, ?_, read?_map_asciiDigit⟩
  · intro h hvalue
    rw [read?_of_isNumeral h, if_pos (h.toSpelled.readable hvalue).fits]
  · intro hdecimal hkanji
    by_cases hne : trim t = []
    · exact read?_of_trim_eq_nil hne
    · rw [read?_of_not_decimal hdecimal hne, Option.eq_none_iff_forall_ne_some]
      exact fun n hn => hkanji ⟨(readKanji?_eq_some_iff.1 hn).1.toSpelled, hne⟩

/-- Places and units may be mixed in front of the first unit. -/
example : IsNumeral "二五十三".toList ∧ read? "二五十三".toList = some 253 := by decide

end OpeningHours.Kanji
