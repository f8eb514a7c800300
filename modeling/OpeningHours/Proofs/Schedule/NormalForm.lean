import OpeningHours.Proofs.ClosedDays.Remarks
import OpeningHours.Schedule

/-!
# Texts with one normal form

Reading keeps the text as given and looks at its normal form only. A normal form is its own normal
form, so a text and its normal form are read alike, and so are any two texts with one normal form.

* `OpeningTimes.readNormal_withRaw`: the text as given is carried along;
* `OpeningTimes.ofText_normalize`, `ClosedDays.ofText_normalize`: a normal form is read as the text
  that it comes from;
* **`Schedule.ofTexts_normalForms`**: texts with the same normal forms put the same questions about
  holidays and give the same answers.
-/

namespace OpeningHours

open Text (normalize)

/-! ## Opening times -/

namespace OpeningTimes

/-- The opening times as read off another text. -/
def withRaw (raw : Option Text) (r : OpeningTimes) : OpeningTimes :=
  { r with raw }

/-- Reading carries the text as given along: every exit leaves it as it is, and no condition on the
way looks at it. -/
theorem readNormal_withRaw (raw : Option Text) (r : OpeningTimes) (t : Text) :
    readNormal (r.withRaw raw) t = (readNormal r t).withRaw raw := by
  simp only [readNormal, apply_ite (withRaw raw)]
  rfl

theorem ofText_some_eq (t : Text) :
    ofText (some t) =
      (readNormal { normalized := some (normalize t) } (normalize t)).withRaw (some t) :=
  readNormal_withRaw (some t) { normalized := some (normalize t) } (normalize t)

/-- A normal form is read as the text that it comes from. -/
theorem ofText_normalize (t : Text) :
    ofText (some (normalize t)) = { ofText (some t) with raw := some (normalize t) } := by
  rw [ofText_some_eq, ofText_some_eq, Text.normalize_normalize]
  rfl

/-- Texts with one normal form say the same about when the facility is open. -/
theorem isOpen_ofText_congr {a b : Option Text} (h : a.map normalize = b.map normalize)
    (moment : Moment) (assumeClosed : Bool) :
    (ofText a).isOpen moment assumeClosed = (ofText b).isOpen moment assumeClosed := by
  cases a with
  | none =>
    obtain rfl : b = none := by simpa using h.symm
    rfl
  | some t =>
    obtain ⟨u, rfl, hu⟩ : ∃ u, b = some u ∧ normalize u = normalize t := by simpa using h.symm
    rw [ofText_some_eq, ofText_some_eq, hu]
    -- The readings differ in the text as given, which is not asked for.
    rfl

end OpeningTimes

/-! ## Closed days -/

namespace ClosedDays

/-- A normal form is read as the text that it comes from. -/
theorem ofText_normalize (t : Text) :
    ofText (some (normalize t)) = { ofText (some t) with raw := some (normalize t) } := by
  rw [ofText_some, ofText_some, Text.normalize_normalize]

/-- Texts with one normal form say the same about closed days. -/
theorem isClosedOn_ofText_congr {a b : Option Text} (h : a.map normalize = b.map normalize)
    (date : Date) : (ofText a).isClosedOn date = (ofText b).isClosedOn date := by
  cases a with
  | none =>
    obtain rfl : b = none := by simpa using h.symm
    rfl
  | some t =>
    obtain ⟨u, rfl, hu⟩ : ∃ u, b = some u ∧ normalize u = normalize t := by simpa using h.symm
    rw [ofText_some, ofText_some, hu]
    rfl

end ClosedDays

/-! ## Schedules -/

namespace Schedule

/-- **Reading goes through the normal form.** A text and its normal form are read alike, the text as
given aside. So texts with the same normal forms make schedules that put the same questions about
holidays and give the same answers, whatever is asked of them. -/
theorem ofTexts_normalForms :
    (∀ t, OpeningTimes.ofText (some (normalize t)) =
        { OpeningTimes.ofText (some t) with raw := some (normalize t) } ∧
      ClosedDays.ofText (some (normalize t)) =
        { ClosedDays.ofText (some t) with raw := some (normalize t) }) ∧
    ∀ times times' closedDays closedDays' : Option Text,
      times.map normalize = times'.map normalize →
      closedDays.map normalize = closedDays'.map normalize →
      let s := ofTexts times closedDays
      let s' := ofTexts times' closedDays'
      (∀ moment assumeClosed, s.isOpen moment assumeClosed = s'.isOpen moment assumeClosed) ∧
      (∀ date, s.isClosedOn date = s'.isClosedOn date) ∧
      (∀ moment assumeClosed,
        s.isAvailable moment assumeClosed = s'.isAvailable moment assumeClosed) := by
  constructor
  · intro t
    exact ⟨OpeningTimes.ofText_normalize t, ClosedDays.ofText_normalize t⟩
  · intro times times' closedDays closedDays' htimes hclosed s s'
    have hopen : ∀ moment assumeClosed,
        s.isOpen moment assumeClosed = s'.isOpen moment assumeClosed :=
      OpeningTimes.isOpen_ofText_congr htimes
    have hdate : ∀ date, s.isClosedOn date = s'.isClosedOn date :=
      ClosedDays.isClosedOn_ofText_congr hclosed
    refine ⟨hopen, hdate, ?_⟩
    intro moment assumeClosed
    rw [isAvailable, isAvailable, hopen, hdate]

/-- Full-width digits and a space at a comma, and a text about closed days with a line break. -/
theorem ofTexts_fullWidth :
    (some "９：００〜１７：００ , 土日".toList).map normalize =
        (some "9:00~17:00,土日".toList).map normalize ∧
      (some "\u3000月曜日\n".toList).map normalize = (some "月曜日".toList).map normalize ∧
      ∀ moment assumeClosed,
        (ofTexts (some "９：００〜１７：００ , 土日".toList) (some "\u3000月曜日\n".toList)).isAvailable
            moment assumeClosed =
          (ofTexts (some "9:00~17:00,土日".toList) (some "月曜日".toList)).isAvailable
            moment assumeClosed := by
  have htimes : (some "９：００〜１７：００ , 土日".toList).map normalize =
      (some "9:00~17:00,土日".toList).map normalize := by decide +kernel
  have hclosed : (some "\u3000月曜日\n".toList).map normalize =
      (some "月曜日".toList).map normalize := by decide +kernel
  exact ⟨htimes, hclosed, (ofTexts_normalForms.2 _ _ _ _ htimes hclosed).2.2⟩

end Schedule

end OpeningHours
