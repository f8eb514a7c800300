import OpeningHours.Proofs.Numeral.Kanji

/-!
# When reading a numeral leaves 32 bits

Digits are put into a group under a check, but what a unit counts and the sums are formed in plain
32-bit arithmetic. `Progress.StaysWithin` says of the way through a text that all products and sums
on it fit, and `ReadSafely` that the numeral is then refused or read as its value.

* `staysWithin_progress_iff`: the sums that are formed are the values of the numerals in front of
  the text that end with a unit, and of the text itself;
* **`readSafely_iff`**: so reading is safe exactly if the value of each of them fits whose first
  group does. A numeral whose first group fits and whose value does not is read as the remainder of
  its value.
-/

namespace OpeningHours.Kanji

open Text

variable {t p r : Text} {c : Char}

/-! ## Arithmetic on the way -/

/-- Every product and every sum that is formed on the way through the text fits into 32 bits: what
each unit counts, the sum with it, and the sum with the last group. A digit is only added to a group
if the group fits. -/
def Progress.StaysWithin : Progress → Text → Prop
  | s, [] => s.total.toNat + (s.waiting.getD 0).toNat < UInt32.size
  | s, c :: r =>
    (∀ unit, unit? c = some unit →
      (s.waiting.getD 1).toNat * unit.toNat < UInt32.size ∧
        s.total.toNat + (s.waiting.getD 1).toNat * unit.toNat < UInt32.size) ∧
    ∀ next, s.add? c = some next → next.StaysWithin r

/-- The numeral ends with a unit. -/
def EndsWithUnit (p : Text) : Prop :=
  ∃ c, p.getLast? = some c ∧ isUnit c = true

/-- Reading the text is safe: nothing on the way leaves 32 bits, a kanji numeral that is too large
is refused, and what is read is the value. -/
structure ReadSafely (t : Text) : Prop where
  within : ({} : Progress).StaysWithin (trim t)
  refused : IsNumeral (trim t) → UInt32.size ≤ value (trim t) → read? t = none
  exact_decimal : ∀ n, read? t = some n → Decimal.IsNumeral (trim t) →
    n.toNat = Decimal.value (trim t)
  exact_kanji : ∀ n, read? t = some n → IsNumeral (trim t) → n.toNat = value (trim t)

/-! ## What has been read fits -/

theorem toNat_total (hunits : unitsValue t < UInt32.size) :
    (progress t).total.toNat = unitsValue t :=
  UInt32.toNat_ofNat_of_lt' hunits

theorem Readable.toNat_waiting (h : Readable t) :
    ((progress t).waiting.getD 0).toNat = groupValue (groups t).2 := by
  rw [getD_zero_waiting]
  exact UInt32.toNat_ofNat_of_lt' h.last_lt

theorem Readable.toNat_count (h : Readable t) :
    ((progress t).waiting.getD 1).toNat = count (groups t).2 := by
  rw [getD_one_waiting]
  refine UInt32.toNat_ofNat_of_lt' ?_
  rw [count]
  split
  · decide
  · exact h.last_lt

theorem value_concat_unit (hc : isUnit c = true) (t : Text) :
    value (t ++ [c]) = unitsValue t + count (groups t).2 * unitValue c := by
  rw [value, unitsValue_concat_unit hc, groups_concat_unit hc]
  rfl

theorem unitsValue_concat_unit_eq_value (hc : isUnit c = true) (t : Text) :
    unitsValue (t ++ [c]) = value (t ++ [c]) := by
  rw [value_concat_unit hc, unitsValue_concat_unit hc]

/-- Behind a unit the value is what the units count. -/
theorem value_of_endsWithUnit (h : EndsWithUnit p) : value p = unitsValue p := by
  obtain ⟨c, hlast, hc⟩ := h
  obtain ⟨front, rfl⟩ := List.getLast?_eq_some_iff.1 hlast
  exact (unitsValue_concat_unit_eq_value hc front).symm

theorem Readable.of_append (h : Readable (p ++ r)) : Readable p := by
  induction r using List.reverseRecOn with
  | nil => simpa using h
  | append_singleton r c ih =>
    rw [← List.append_assoc] at h
    exact ih h.of_concat

/-! ## The way through a text -/

/-- The numerals at which sums are formed on the way from behind `p` through `r` fit. -/
def SumsFit (p r : Text) : Prop :=
  ∀ q, q <+: r → (q = r ∨ EndsWithUnit (p ++ q)) → Readable (p ++ q) → value (p ++ q) < UInt32.size

theorem sumsFit_nil (hp : Readable p) : SumsFit p [] ↔ value p < UInt32.size := by
  constructor
  · intro h
    simpa using h [] List.nil_prefix (.inl rfl) (by simpa using hp)
  · intro h q hq _ _
    rw [List.prefix_nil.1 hq, List.append_nil]
    exact h

/-- The sums are those at the next character and those behind it. -/
theorem sumsFit_cons (hunits : unitsValue p < UInt32.size) :
    SumsFit p (c :: r) ↔
      (isUnit c = true → Readable (p ++ [c]) → value (p ++ [c]) < UInt32.size) ∧
        (Readable (p ++ [c]) → SumsFit (p ++ [c]) r) := by
  have hbehind (q : Text) : p ++ [c] ++ q = p ++ c :: q := by simp
  constructor
  · intro h
    constructor
    · intro hc hread
      exact h [c] ⟨r, rfl⟩ (.inr ⟨c, by simp, hc⟩) hread
    · intro _ q hq hsum hread
      rw [hbehind] at hsum hread ⊢
      exact h (c :: q) (List.cons_prefix_cons.2 ⟨rfl, hq⟩) (hsum.imp_left (congrArg (c :: ·))) hread
  · rintro ⟨hnext, hrest⟩ q hq hsum hread
    cases q with
    | nil =>
      rw [List.append_nil] at hsum ⊢
      rw [value_of_endsWithUnit (hsum.resolve_left (by simp))]
      exact hunits
    | cons d q =>
      obtain ⟨rfl, hprefix⟩ := List.cons_prefix_cons.1 hq
      rw [← hbehind] at hsum hread ⊢
      exact hrest hread.of_append q hprefix (hsum.imp_left fun h => (List.cons.inj h).2) hread

/-- **The sums on the way** are the values of the numerals that end with a unit and of the whole. The
induction is on the text that is still to be read. -/
theorem staysWithin_progress_iff (hp : Readable p) (hunits : unitsValue p < UInt32.size) :
    (progress p).StaysWithin r ↔ SumsFit p r := by
  induction r generalizing p with
  | nil =>
    rw [Progress.StaysWithin, toNat_total hunits, hp.toNat_waiting, sumsFit_nil hp]
    rfl
  | cons c r ih =>
    rw [Progress.StaysWithin, sumsFit_cons hunits]
    simp only [add?_progress hp, hp.toNat_count, toNat_total hunits]
    cases hc : unit? c with
    | some unit =>
      obtain ⟨hunit, hword⟩ := unit?_eq_some_iff.1 hc
      have hvalue : unit.toNat = unitValue c := by rw [hword, toNat_unitValue]
      have hread := (readable_concat_unit hunit).2 hp
      have hsum := value_concat_unit hunit p
      simp only [Option.some.injEq, forall_eq', hvalue, hunit, hread, true_and, forall_eq,
        forall_const, ← hsum]
      constructor
      · rintro ⟨⟨-, hfits⟩, hrest⟩
        rw [ih hread (by rwa [unitsValue_concat_unit_eq_value hunit])] at hrest
        exact ⟨hfits, hrest⟩
      · rintro ⟨hfits, hrest⟩
        rw [ih hread (by rwa [unitsValue_concat_unit_eq_value hunit])]
        exact ⟨⟨by omega, hfits⟩, hrest⟩
    | none =>
      have hunit := unit?_eq_none_iff.1 hc
      simp only [reduceCtorEq, false_implies, implies_true, true_and, hunit, Bool.false_eq_true]
      constructor
      · intro h hread
        rw [← ih hread (by rwa [unitsValue_concat hunit])]
        exact h _ ⟨hread, rfl⟩
      · rintro h next ⟨hread, rfl⟩
        rw [ih hread (by rwa [unitsValue_concat hunit])]
        exact h hread

/-! ## Safe reading -/

/-- Where the sums fit, a kanji numeral that is read fits. -/
theorem value_lt_of_sumsFit (h : SumsFit [] t) (ht : Readable t) : value t < UInt32.size :=
  h t (List.prefix_refl t) (.inl rfl) ht

theorem toNat_of_read?_decimal {n : UInt32} (h : Decimal.IsNumeral (trim t))
    (hread : read? t = some n) : n.toNat = Decimal.value (trim t) := by
  rw [read?_of_decimal h, word?] at hread
  split at hread
  · next hfits =>
    rw [← Option.some.inj hread]
    exact UInt32.toNat_ofNat_of_lt' hfits
  · simp at hread

/-- Reading is safe exactly if all sums on the way fit. -/
theorem readSafely_iff_sumsFit : ReadSafely t ↔ SumsFit [] (trim t) := by
  have hstart : ({} : Progress).StaysWithin (trim t) ↔ SumsFit [] (trim t) :=
    staysWithin_progress_iff readable_nil (by decide)
  constructor
  · intro h
    exact hstart.1 h.within
  · intro h
    have hfits (hnumeral : IsNumeral (trim t))
        (hfirst : groupValue (firstGroup (trim t)) < UInt32.size) : value (trim t) < UInt32.size :=
      value_lt_of_sumsFit h ⟨hnumeral.toSpelled, hfirst⟩
    refine ⟨hstart.2 h, ?_, fun n hread hdecimal => toNat_of_read?_decimal hdecimal hread, ?_⟩
    · intro hnumeral hlarge
      rw [read?_of_isNumeral hnumeral, if_neg]
      intro hfirst
      have hsmall := hfits hnumeral hfirst
      omega
    · intro n hread hnumeral
      rw [read?_of_isNumeral hnumeral] at hread
      split at hread
      · next hfirst =>
        rw [← Option.some.inj hread]
        exact UInt32.toNat_ofNat_of_lt' (hfits hnumeral hfirst)
      · simp at hread

/-- **When reading a numeral is safe.** A kanji numeral is refused exactly if its first group of
digits does not fit into 32 bits, and is else read as the remainder of its value. So reading a text
is safe exactly if the value fits of every kanji numeral whose first group fits, among the text
itself and what stands in front of it up to a unit. -/
theorem readSafely_iff (t : Text) :
    (IsNumeral (trim t) → read? t =
      if groupValue (firstGroup (trim t)) < 2 ^ 32 then some (UInt32.ofNat (value (trim t)))
      else none) ∧
    (ReadSafely t ↔ ∀ p, p <+: trim t → (p = trim t ∨ EndsWithUnit p) → IsNumeral p →
      groupValue (firstGroup p) < 2 ^ 32 → value p < 2 ^ 32) := by
  refine ⟨read?_of_isNumeral, readSafely_iff_sumsFit.trans ⟨?_, ?_⟩⟩
  · intro h p hp hsum hnumeral hfirst
    exact h p hp hsum ⟨hnumeral.toSpelled, hfirst⟩
  · intro h p hp hsum hread
    by_cases hne : p = []
    · rw [hne]
      decide
    · exact h p hp hsum ⟨hread.toSpelled, hne⟩ hread.fits

/-- The tens of 429496730 are more than 32 bits hold, and are read as four. -/
theorem not_readSafely_tens : ¬ ReadSafely "四二九四九六七三〇十".toList ∧
    value "四二九四九六七三〇十".toList = 4294967300 ∧
    read? "四二九四九六七三〇十".toList = some 4 := by
  have hread : read? "四二九四九六七三〇十".toList = some 4 := by decide
  have htrim : trim "四二九四九六七三〇十".toList = "四二九四九六七三〇十".toList := by decide
  refine ⟨fun h => ?_, by decide, hread⟩
  have hnone := h.refused (by rw [htrim]; decide) (by rw [htrim]; decide)
  rw [hread] at hnone
  simp at hnone

end OpeningHours.Kanji
