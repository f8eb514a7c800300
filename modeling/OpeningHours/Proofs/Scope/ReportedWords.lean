import Mathlib.Data.List.Basic
import OpeningHours.Proofs.Hours.WellFormed
import OpeningHours.Proofs.Pattern.Alphabet
import OpeningHours.Scope.Days
import OpeningHours.Scope.Months

/-!
# What is taken out of a text is reported

The words for days and for months are taken out of a text, a space in the place of each. What is
taken out is to be reported: where nothing is reported the text stays as it is, and a report says
something. The words for days are reported so. Of the words for months those are not that stand for
a range with a month that does not exist (`13~14月`). They are taken out with the ranges that exist,
whereas such a month alone is left in the text.

* `Replaced`, `replaced_extract`: texts with some fragments replaced, and the fragments that an
  extraction replaces;
* `DaysReported`, **`daysReported`**: what holds of the words for days, in every text;
* `MonthsReported`, **`monthsReported_iff`**: what holds of the words for months if all ranges of
  months exist;
* **`removed_is_reported_iff`**: both together.
-/

namespace OpeningHours

open Pattern

variable {p : Pattern} {read : Option Char → Hit → Option α} {t u : Text} {fragments : List Text}
  {pieces : List Piece}

/-! ## Fragments in the place of which there is a space -/

/-- The second text is the first with a space in the place of each fragment, in their order. -/
inductive Replaced : List Text → Text → Text → Prop
  | nil : Replaced [] [] []
  | keep {fragments : List Text} {t u : Text} (c : Char) (h : Replaced fragments t u) :
      Replaced fragments (c :: t) (c :: u)
  | blank {fragments : List Text} {t u f : Text} (hne : f ≠ []) (h : Replaced fragments t u) :
      Replaced (f :: fragments) (f ++ t) (' ' :: u)

theorem Replaced.eq_of_nil (h : Replaced [] t u) : u = t := by
  generalize hnone : ([] : List Text) = fragments at h
  induction h with
  | nil => rfl
  | keep c h ih => rw [ih hnone]
  | blank hne h ih => exact absurd hnone (List.cons_ne_nil _ _).symm

/-- A stretch without a space that is left has been there. -/
theorem Replaced.exists_append {f v : Text} (h : Replaced fragments t (f ++ v))
    (hspace : ' ' ∉ f) : ∃ u, t = f ++ u ∧ Replaced fragments u v := by
  induction f generalizing t fragments with
  | nil => exact ⟨t, rfl, h⟩
  | cons c f ih =>
    cases h with
    | keep _ h =>
      obtain ⟨u, rfl, hu⟩ := ih h fun hmem => hspace (List.mem_cons_of_mem c hmem)
      exact ⟨u, rfl, hu⟩
    | blank hne h => exact absurd List.mem_cons_self hspace

/-- What is replaced in two steps is replaced together. The second step takes out no space, so it
takes out none of those of the first. -/
theorem Replaced.trans {fragments' : List Text} {v : Text} (htu : Replaced fragments t u)
    (huv : Replaced fragments' u v) (hspace : ∀ f ∈ fragments', ' ' ∉ f) :
    ∃ both, Replaced both t v ∧ both.Perm (fragments ++ fragments') := by
  induction huv generalizing t fragments with
  | nil =>
    cases htu
    exact ⟨[], .nil, .refl _⟩
  | keep c huv ih =>
    cases htu with
    | keep _ htu =>
      obtain ⟨both, hboth, hperm⟩ := ih htu hspace
      exact ⟨both, .keep c hboth, hperm⟩
    | blank hne htu =>
      obtain ⟨both, hboth, hperm⟩ := ih htu hspace
      exact ⟨_ :: both, .blank hne hboth, hperm.cons _⟩
  | blank hne huv ih =>
    obtain ⟨w, rfl, hwu⟩ := htu.exists_append (hspace _ List.mem_cons_self)
    obtain ⟨both, hboth, hperm⟩ := ih hwu fun f hf => hspace f (List.mem_cons_of_mem _ hf)
    exact ⟨_ :: both, .blank hne hboth, (hperm.cons _).trans List.perm_middle.symm⟩

theorem Replaced.append_left (h : Replaced fragments t u) (s : Text) :
    Replaced fragments (s ++ t) (s ++ u) := by
  induction s with
  | nil => exact h
  | cons c s ih => exact .keep c ih

/-- The fragments that an extraction takes out. -/
def Pattern.removed (p : Pattern) (read : Option Char → Hit → Option α) (t : Text) : List Text :=
  ((p.scan t).filter fun piece => (readPiece read piece).isSome).map Piece.text

theorem Pattern.Scans.replaced {before : Option Char} (hscan : p.Scans before t pieces) :
    Replaced ((pieces.filter fun piece => (readPiece read piece).isSome).map Piece.text) t
      (pieces.flatMap (leavePiece read)) := by
  induction hscan with
  | nil => exact .nil
  | loose hnone htail ih => exact .keep _ ih
  | @hit before t h pieces hfirst htail ih =>
    obtain ⟨hne, rfl⟩ := first?_eq_some hfirst
    rw [List.flatMap_cons, leavePiece, List.filter_cons]
    split
    · exact .blank hne ih
    · exact ih.append_left h.taken

/-- **An extraction replaces its fragments**, and leaves the text as it is between them. -/
theorem replaced_extract (p : Pattern) (read : Option Char → Hit → Option α) (t : Text) :
    Replaced (p.removed read t) t (p.extract read t).2 :=
  (p.scans_scan t).replaced

/-- It replaces as many fragments as it reads. -/
theorem length_removed (p : Pattern) (read : Option Char → Hit → Option α) (t : Text) :
    (p.removed read t).length = (p.extract read t).1.length := by
  rw [Pattern.removed, List.length_map, extract, List.length_filterMap_eq_countP,
    List.countP_eq_length_filter]

/-- A pattern that refuses spaces takes out none. -/
theorem not_mem_of_mem_removed (hspace : p.refuses ' ' = true) {f : Text}
    (hf : f ∈ p.removed read t) : ' ' ∉ f := by
  obtain ⟨piece, hpiece, rfl⟩ := List.mem_map.1 hf
  obtain ⟨hmem, hread⟩ := List.mem_filter.1 hpiece
  cases piece with
  | loose c => exact absurd hread (by simp [readPiece])
  | hit b h => exact not_mem_taken hspace (mem_hits_of_mem_scanFrom hmem).2

/-! ## Days -/

/-- The mention names a weekday, if it is one of weekdays. -/
def DayMention.Tells (m : DayMention) : Prop :=
  ∀ days, m = .weekdays days → ∃ d, days.contains d = true

/-- The scope has a weekday, says something about holidays or takes every day. -/
def DayScope.Tells (s : DayScope) : Prop :=
  (∃ d, s.weekdays.contains d = true) ∨ s.holidays ≠ .unspecified ∨ s.everyDay = true

namespace DayScope

variable {s : DayScope} {m : DayMention} {mentions : List DayMention}

theorem tells_add (s : DayScope) (hm : m.Tells) : (s.add m).Tells := by
  cases m with
  | weekdays days =>
    obtain ⟨d, hd⟩ := hm days rfl
    exact .inl ⟨d, by simp [DayScope.add, hd]⟩
  | everyDay => exact .inr (.inr rfl)
  | holidays =>
    by_cases h : s.holidays = .unspecified
    · exact .inr (.inl (by simp [DayScope.add, h]))
    · exact .inr (.inl (by simp [DayScope.add, h]))
  | noHolidays => exact .inr (.inl (by simp [DayScope.add]))
  | sundaysAndHolidays => exact .inr (.inl (by simp [DayScope.add]))

theorem tells_foldl_add (hmentions : ∀ m ∈ mentions, m.Tells) (hs : s.Tells ∨ mentions ≠ []) :
    (mentions.foldl add s).Tells := by
  induction mentions generalizing s with
  | nil => exact hs.resolve_right (not_not_intro rfl)
  | cons m mentions ih =>
    refine ih (fun n hn => hmentions n (List.mem_cons_of_mem m hn)) (.inl ?_)
    exact tells_add s (hmentions m List.mem_cons_self)

end DayScope

/-- Every mention that a pass reads says something. -/
theorem tells_of_mem_pass {pass : DayPass} (hpass : pass ∈ dayPasses) {m : DayMention}
    (hm : m ∈ (pass t).1) : m.Tells := by
  have hrange (first last : Weekday) : (WeekdaySet.range first last).contains first = true := by
    simp [WeekdaySet.range]
  have hsingle (d : Weekday) : (WeekdaySet.single d).contains d = true := by
    cases d <;> rfl
  simp only [dayPasses, List.mem_cons, List.not_mem_nil, or_false] at hpass
  rcases hpass with rfl | rfl | rfl | rfl | rfl | rfl <;>
    obtain ⟨b, h, -, hread⟩ := exists_hit_of_mem_extract hm
  · obtain rfl := Option.some.inj hread
    exact fun days hdays => absurd hdays (by simp)
  · obtain rfl := Option.some.inj hread
    exact fun days hdays => absurd hdays (by simp)
  · obtain rfl := Option.some.inj hread
    intro days hdays
    split at hdays
    · cases hdays
      exact ⟨.mon, rfl⟩
    · split at hdays
      · cases hdays
        exact ⟨.sat, rfl⟩
      · exact absurd hdays (by simp)
  · obtain rfl := Option.some.inj hread
    exact fun days hdays => absurd hdays (by simp)
  · split at hread
    · split at hread
      · next first last _ _ =>
        cases hread
        rintro days ⟨⟩
        exact ⟨first, hrange first last⟩
      · exact absurd hread (by simp)
    · exact absurd hread (by simp)
  · split at hread
    · obtain ⟨d, -, rfl⟩ := Option.map_eq_some_iff.1 hread
      rintro days ⟨⟩
      exact ⟨d, hsingle d⟩
    · exact absurd hread (by simp)

theorem pass_snd_of_fst_eq_nil {pass : DayPass} (hpass : pass ∈ dayPasses)
    (ht : (pass t).1 = []) : (pass t).2 = t := by
  simp only [dayPasses, List.mem_cons, List.not_mem_nil, or_false] at hpass
  rcases hpass with rfl | rfl | rfl | rfl | rfl | rfl <;> exact extract_snd_of_fst_eq_nil ht

theorem tells_of_mem_readDays {passes : List DayPass} (hpasses : passes ⊆ dayPasses)
    {m : DayMention} (hm : m ∈ (readDays passes t).1) : m.Tells := by
  induction passes generalizing t with
  | nil => exact absurd hm List.not_mem_nil
  | cons pass passes ih =>
    obtain ⟨hpass, hsub⟩ := List.cons_subset.1 hpasses
    rcases List.mem_append.1 hm with hm | hm
    · exact tells_of_mem_pass hpass hm
    · exact ih hsub hm

theorem readDays_snd_of_fst_eq_nil {passes : List DayPass} (hpasses : passes ⊆ dayPasses)
    (ht : (readDays passes t).1 = []) : (readDays passes t).2 = t := by
  induction passes generalizing t with
  | nil => rfl
  | cons pass passes ih =>
    obtain ⟨hpass, hsub⟩ := List.cons_subset.1 hpasses
    obtain ⟨hnone, hlater⟩ := List.append_eq_nil_iff.1 ht
    have hrest := pass_snd_of_fst_eq_nil hpass hnone
    exact (ih hsub hlater).trans hrest

/-- What is taken out of a text as words for days is reported. -/
structure DaysReported (t : Text) : Prop where
  unchanged : (extractDays t).1 = none → (extractDays t).2 = t
  telling : ∀ s, (extractDays t).1 = some s → s.Tells

/-- **The words for days are reported**, in every text. -/
theorem daysReported (t : Text) : DaysReported t where
  unchanged hnone := by
    have hnil : (readDays dayPasses t).1 = [] := by
      simpa [extractDays, DayScope.ofMentions?] using hnone
    exact readDays_snd_of_fst_eq_nil (List.Subset.refl _) hnil
  telling s hs := by
    have htells : ∀ m ∈ (readDays dayPasses t).1, m.Tells :=
      fun m hm => tells_of_mem_readDays (List.Subset.refl _) hm
    have hmentions : DayScope.ofMentions? (readDays dayPasses t).1 = some s := hs
    rw [DayScope.ofMentions?] at hmentions
    split at hmentions
    · exact absurd hmentions (by simp)
    · next hne =>
      obtain rfl := Option.some.inj hmentions
      exact DayScope.tells_foldl_add htells (.inr (by simpa using hne))

/-! ## Months -/

/-- The fragments that are taken out of a text as words for months: ranges of months, and the single
months of what is left. -/
def removedMonths (t : Text) : List Text :=
  Wording.monthRange.removed (fun _ h => some h.monthRange?) t ++
    Wording.oneMonth.removed (fun _ h => h.oneMonth?) (Wording.monthRange.blankOut t)

theorem replaced_extractMonths (t : Text) :
    ∃ fragments, Replaced fragments t (extractMonths t).2 ∧ fragments.Perm (removedMonths t) := by
  have hranges := replaced_extract Wording.monthRange (fun _ h => some h.monthRange?) t
  rw [extract_snd_of_isSome fun _ _ => rfl] at hranges
  have hmonths := replaced_extract Wording.oneMonth (fun _ h => h.oneMonth?)
    (Wording.monthRange.blankOut t)
  have hleft : (extractMonths t).2 = (Wording.oneMonth.extract (fun _ h => h.oneMonth?)
      (Wording.monthRange.blankOut t)).2 := by
    have hblank : (Wording.monthRange.extract (fun _ h => some h.monthRange?) t).2 =
        Wording.monthRange.blankOut t := extract_snd_of_isSome (fun _ _ => rfl) t
    rw [← hblank]
    rfl
  rw [hleft]
  exact hranges.trans hmonths fun f hf => not_mem_of_mem_removed (by decide) hf

/-- What is taken out of a text as words for months is reported, with months that exist. -/
structure MonthsReported (t : Text) : Prop where
  unchanged : (extractMonths t).1 = [] → (extractMonths t).2 = t
  as_many : (removedMonths t).length = (extractMonths t).1.length
  exist : ValidMonths (extractMonths t).1

/-- **The words for months are reported** exactly if all ranges of months in the text exist. -/
theorem monthsReported_iff (t : Text) :
    MonthsReported t ↔ ∀ h ∈ Wording.monthRange.findAll t, h.monthRange?.isSome = true := by
  let left := Wording.monthRange.blankOut t
  let months := (Wording.oneMonth.extract (fun _ h => h.oneMonth?) left).1
  have hranges : (Wording.monthRange.extract (fun _ h => some h.monthRange?) t).1 =
      (Wording.monthRange.findAll t).map Hit.monthRange? := by
    rw [← filterMap_findAll, List.filterMap_eq_map']
  have hleft : (Wording.monthRange.extract (fun _ h => some h.monthRange?) t).2 = left :=
    extract_snd_of_isSome (fun _ _ => rfl) t
  have hfst : (extractMonths t).1 =
      (Wording.monthRange.findAll t).filterMap Hit.monthRange? ++ months := by
    simp only [extractMonths, hranges, hleft, List.filterMap_map]
    rfl
  have hremoved : (removedMonths t).length =
      (Wording.monthRange.findAll t).length + months.length := by
    rw [removedMonths, List.length_append, length_removed, length_removed, hranges,
      List.length_map]
  have hlength : (removedMonths t).length = (extractMonths t).1.length ↔
      ∀ h ∈ Wording.monthRange.findAll t, h.monthRange?.isSome = true := by
    rw [hremoved, hfst, List.length_append, Nat.add_right_cancel_iff, eq_comm,
      List.filterMap_length_eq_length]
  refine ⟨fun h => hlength.1 h.as_many, fun hexist =>
    ⟨fun hnil => ?_, hlength.2 hexist, validMonths_extractMonths t⟩⟩
  have hnone : removedMonths t = [] := by
    rw [← List.length_eq_zero_iff, hlength.2 hexist, hnil, List.length_nil]
  obtain ⟨fragments, hreplaced, hperm⟩ := replaced_extractMonths t
  rw [hnone] at hperm
  rw [hperm.eq_nil] at hreplaced
  exact hreplaced.eq_of_nil

/-- **What is taken out of a text is reported** exactly if all ranges of months in it exist. -/
theorem removed_is_reported_iff (t : Text) :
    (∃ fragments, Replaced fragments t (extractMonths t).2 ∧ fragments.Perm (removedMonths t)) ∧
      (DaysReported t ∧ MonthsReported t ↔
        ∀ h ∈ Wording.monthRange.findAll t, h.monthRange?.isSome = true) :=
  ⟨replaced_extractMonths t, (and_iff_right (daysReported t)).trans (monthsReported_iff t)⟩

/-- The range `13~14月` is taken out and not reported. -/
theorem missingMonths_not_reported : ¬ MonthsReported "13~14月".toList := by
  intro h
  exact absurd (h.unchanged (by decide)) (by decide)

end OpeningHours
