import Mathlib.Data.List.Perm.Basic
import OpeningHours.Schedule

/-!
# What a further window or rule can change

Windows are tried one after another, up to the first that is surely open, and rules up to the first
that closes. Neither search depends on the order. A further window can only raise the answer, in the
order no, unknown, yes, and a further rule can only close, provided there is a window or a rule
already: the first window turns an unknown answer into a no, and the first rule takes the place of
what the text says about days without a rule.

* `Tristate.orElse_mono`: a higher answer and a more generous policy keep a yes;
* `HolidayQuery.under_strongest_mono`: the strongest of more answers is no lower;
* `OpeningTimes.under_openState_mono`, `ClosedDays.under_isClosedOn_insert`: one window or rule
  more;
* `Schedule.isAvailable_mono`: available with higher opening times and lower closed days;
* **`Schedule.answers_perm_mono`**: what permuting the windows or the rules changes, which is
  nothing, and what inserting one can change.
-/

namespace OpeningHours

/-! ## The order of the answers -/

namespace Tristate

/-- The place of the answer in the order no, unknown, yes. -/
def rank : Tristate → Nat
  | .no => 0
  | .unknown => 1
  | .yes => 2

instance : LE Tristate := ⟨fun a b => a.rank ≤ b.rank⟩

instance : DecidableLE Tristate := fun a b => inferInstanceAs (Decidable (a.rank ≤ b.rank))

theorem le_refl (a : Tristate) : a ≤ a :=
  Nat.le_refl a.rank

theorem le_antisymm {a b : Tristate} : a ≤ b → b ≤ a → a = b := by
  cases a <;> cases b <;> decide

/-- An answer is no higher than another if the other is yes where it is, and it is no where the
other is. -/
theorem le_iff {a b : Tristate} : a ≤ b ↔ (a = .yes → b = .yes) ∧ (b = .no → a = .no) := by
  cases a <;> cases b <;> decide

theorem le_of_eq_or_no_yes {a b : Tristate} (h : b = a ∨ (a = .no ∧ b = .yes)) : a ≤ b := by
  rcases h with rfl | ⟨rfl, rfl⟩
  · exact le_refl b
  · decide

/-- **A higher answer and a more generous policy keep a yes.** -/
theorem orElse_mono {a b : Tristate} {p q : Bool} (hab : a ≤ b) (hpq : p = true → q = true)
    (h : a.orElse p = true) : b.orElse q = true := by
  obtain ⟨hyes, hno⟩ := le_iff.1 hab
  cases a with
  | yes => rw [hyes rfl]; rfl
  | no => exact absurd h Bool.false_ne_true
  | unknown =>
    cases b with
    | yes => rfl
    | no => exact absurd (hno rfl) (by decide)
    | unknown => exact hpq h

end Tristate

namespace HolidayQuery

variable {holidays : HolidayCalendar} {qs ps : List (HolidayQuery Tristate)}

/-- **The strongest of more answers is no lower.** -/
theorem under_strongest_mono (h : qs ⊆ ps) :
    (strongest qs).under holidays ≤ (strongest ps).under holidays := by
  rw [Tristate.le_iff, under_strongest_eq_yes, under_strongest_eq_yes, under_strongest_eq_no,
    under_strongest_eq_no]
  constructor
  · rintro ⟨q, hq, hyes⟩
    exact ⟨q, h hq, hyes⟩
  · exact fun hno q hq => hno q (h hq)

theorem under_strongest_perm (h : qs.Perm ps) :
    (strongest qs).under holidays = (strongest ps).under holidays :=
  Tristate.le_antisymm (under_strongest_mono h.subset) (under_strongest_mono h.symm.subset)

end HolidayQuery

variable {holidays : HolidayCalendar} {m : Moment} {date : Date}

/-! ## Windows -/

namespace OpeningTimes

/-- The opening times with other windows. -/
def withWindows (t : OpeningTimes) (ws : List TimeWindow) : OpeningTimes :=
  { t with windows := ws }

theorem under_openState_perm (t : OpeningTimes) {ws : List TimeWindow} (h : ws.Perm t.windows) :
    ((t.withWindows ws).openState m).under holidays = (t.openState m).under holidays := by
  have hempty : ws.isEmpty = t.windows.isEmpty := h.isEmpty_eq
  have hstrongest : (HolidayQuery.strongest (ws.map fun w => w.contains m)).under holidays =
      (HolidayQuery.strongest (t.windows.map fun w => w.contains m)).under holidays :=
    HolidayQuery.under_strongest_perm (h.map fun w => w.contains m)
  simp only [openState, withWindows, hempty]
  split
  · rfl
  · split
    · rfl
    · split
      · rfl
      · exact hstrongest

/-- Where windows decide, they decide by the strongest of their answers. -/
theorem openState_of_windows {t : OpeningTimes} (hwindows : t.windows ≠ [])
    (hclosed : t.isClosed = false) (hclock : t.isAroundTheClock = false) :
    t.openState m = .strongest (t.windows.map fun w => w.contains m) := by
  have hempty : t.windows.isEmpty = false := by simpa using hwindows
  simp [openState, hclosed, hclock, hempty]

/-- More windows never lower the answer of windows that decide. -/
theorem under_openState_mono {t : OpeningTimes} (hwindows : t.windows ≠ [])
    (hclosed : t.isClosed = false) (hclock : t.isAroundTheClock = false) {ws : List TimeWindow}
    (h : t.windows ⊆ ws) :
    (t.openState m).under holidays ≤ ((t.withWindows ws).openState m).under holidays := by
  have hnew : (t.withWindows ws).openState m = .strongest (ws.map fun w => w.contains m) := by
    refine openState_of_windows ?_ hclosed hclock
    exact fun hnil => hwindows (List.eq_nil_of_subset_nil (hnil ▸ h))
  rw [openState_of_windows hwindows hclosed hclock, hnew]
  exact HolidayQuery.under_strongest_mono (List.map_subset _ h)

end OpeningTimes

/-! ## Rules -/

namespace ClosedDays

/-- The closed days with other rules. -/
def withRules (c : ClosedDays) (rs : List ClosureRule) : ClosedDays :=
  { c with rules := rs }

theorem under_isClosedOn (c : ClosedDays) :
    (c.isClosedOn date).under holidays =
      if c.rules.any fun r => (r.closes date).under holidays then .yes else c.otherwise := by
  rw [isClosedOn, HolidayQuery.under_bind, HolidayQuery.under_any, List.any_map]
  simp only [Function.comp_def]
  split
  · rfl
  · rfl

theorem under_isClosedOn_perm (c : ClosedDays) {rs : List ClosureRule} (h : rs.Perm c.rules) :
    ((c.withRules rs).isClosedOn date).under holidays = (c.isClosedOn date).under holidays := by
  have hother : (c.withRules rs).otherwise = c.otherwise := by
    simp only [otherwise, withRules, h.isEmpty_eq]
    rfl
  rw [under_isClosedOn, under_isClosedOn, hother]
  simp only [withRules, h.any_eq]

/-- Where there are rules, they decide for every date. -/
theorem under_isClosedOn_of_rules {c : ClosedDays} (hrules : c.rules ≠ []) :
    (c.isClosedOn date).under holidays =
      .ofBool (c.rules.any fun r => (r.closes date).under holidays) := by
  have hother : c.otherwise = .no := by simp [otherwise, hrules]
  rw [under_isClosedOn, hother]
  rfl

/-- One rule more changes nothing, or it closes a date that was open. -/
theorem under_isClosedOn_insert {c : ClosedDays} {before after : List ClosureRule}
    (hsplit : c.rules = before ++ after) (hrules : c.rules ≠ []) (r : ClosureRule) :
    ((c.withRules (before ++ r :: after)).isClosedOn date).under holidays =
        (c.isClosedOn date).under holidays ∨
      ((c.isClosedOn date).under holidays = .no ∧
        ((c.withRules (before ++ r :: after)).isClosedOn date).under holidays = .yes) := by
  have hnew : (c.withRules (before ++ r :: after)).rules ≠ [] := by simp [withRules]
  have hany : (before ++ r :: after).any (fun r => (r.closes date).under holidays) =
      ((r.closes date).under holidays ||
        c.rules.any fun r => (r.closes date).under holidays) := by
    simp only [hsplit, List.any_append, List.any_cons, Bool.or_left_comm]
  rw [under_isClosedOn_of_rules hrules, under_isClosedOn_of_rules hnew]
  simp only [withRules, hany]
  cases (r.closes date).under holidays with
  | false => exact .inl rfl
  | true =>
    cases c.rules.any fun r => (r.closes date).under holidays with
    | true => exact .inl rfl
    | false => exact .inr ⟨rfl, rfl⟩

end ClosedDays

/-! ## Availability -/

namespace Schedule

variable {s s' : Schedule}

/-- The schedule with other windows. -/
def withWindows (s : Schedule) (ws : List TimeWindow) : Schedule :=
  { s with times := s.times.withWindows ws }

/-- The schedule with other rules. -/
def withRules (s : Schedule) (rs : List ClosureRule) : Schedule :=
  { s with closedDays := s.closedDays.withRules rs }

/-- Two schedules answer alike: they are open, closed and available alike, under each policy. -/
structure AnswersLike (holidays : HolidayCalendar) (m : Moment) (s s' : Schedule) : Prop where
  openState : (s.times.openState m).under holidays = (s'.times.openState m).under holidays
  isClosedOn : ∀ date, (s.isClosedOn date).under holidays = (s'.isClosedOn date).under holidays
  isAvailable : ∀ assumeClosed, (s.isAvailable m assumeClosed).under holidays =
    (s'.isAvailable m assumeClosed).under holidays

/-- Available is what is open and not closed, where the policy settles the two unknown answers in
opposite ways. -/
theorem under_isAvailable_iff {assumeClosed : Bool} :
    (s.isAvailable m assumeClosed).under holidays = true ↔
      ((s.times.openState m).under holidays).orElse (!assumeClosed) = true ∧
        ¬ ((s.isClosedOn m.date).under holidays).orElse assumeClosed = true := by
  rw [under_isAvailable, isOpen, OpeningTimes.isOpen, HolidayQuery.under_map, Bool.and_eq_true,
    Bool.not_eq_true', Bool.not_eq_true]

/-- **What is available stays so** with opening times that answer no lower, closed days that answer
no higher, and a policy that assumes no more closed. -/
theorem isAvailable_mono {p p' : Bool}
    (htimes : (s.times.openState m).under holidays ≤ (s'.times.openState m).under holidays)
    (hclosed : (s'.isClosedOn m.date).under holidays ≤ (s.isClosedOn m.date).under holidays)
    (hp : p' = true → p = true) (h : (s.isAvailable m p).under holidays = true) :
    (s'.isAvailable m p').under holidays = true := by
  rw [under_isAvailable_iff] at h ⊢
  obtain ⟨hopen, hnot⟩ := h
  constructor
  · refine Tristate.orElse_mono htimes ?_ hopen
    rw [Bool.not_eq_true', Bool.not_eq_true', ← Bool.not_eq_true, ← Bool.not_eq_true]
    exact mt hp
  · exact fun hclosed' => hnot (Tristate.orElse_mono hclosed hp hclosed')

theorem answersLike_of_eq
    (htimes : (s.times.openState m).under holidays = (s'.times.openState m).under holidays)
    (hclosed : ∀ date,
      (s.isClosedOn date).under holidays = (s'.isClosedOn date).under holidays) :
    AnswersLike holidays m s s' where
  openState := htimes
  isClosedOn := hclosed
  isAvailable p := by
    rw [Bool.eq_iff_iff, under_isAvailable_iff, under_isAvailable_iff, htimes, hclosed]

/-- **Availability does not depend on the order of windows and rules, and it is monotone.** What is
available when an unknown answer counts as closed is available when it counts as open. Permuting
the windows or the rules changes no answer. Where windows decide, a further one among them can only
raise the answer and make the facility available. Where there are rules, a further one among them
can only close dates and make the facility unavailable. -/
theorem answers_perm_mono (s : Schedule) (m : Moment) (holidays : HolidayCalendar) :
    ((s.isAvailable m true).under holidays = true →
      (s.isAvailable m false).under holidays = true) ∧
    (∀ ws : List TimeWindow, ws.Perm s.times.windows →
      AnswersLike holidays m (s.withWindows ws) s) ∧
    (∀ rs : List ClosureRule, rs.Perm s.closedDays.rules →
      AnswersLike holidays m (s.withRules rs) s) ∧
    (∀ (before after : List TimeWindow) (w : TimeWindow), s.times.windows = before ++ after →
      s.times.windows ≠ [] → s.times.isClosed = false → s.times.isAroundTheClock = false →
      (s.times.openState m).under holidays ≤
          ((s.withWindows (before ++ w :: after)).times.openState m).under holidays ∧
        ∀ assumeClosed, (s.isAvailable m assumeClosed).under holidays = true →
          ((s.withWindows (before ++ w :: after)).isAvailable m assumeClosed).under holidays =
            true) ∧
    (∀ (before after : List ClosureRule) (r : ClosureRule),
      s.closedDays.rules = before ++ after → s.closedDays.rules ≠ [] →
      (∀ date, ((s.withRules (before ++ r :: after)).isClosedOn date).under holidays =
            (s.isClosedOn date).under holidays ∨
          ((s.isClosedOn date).under holidays = .no ∧
            ((s.withRules (before ++ r :: after)).isClosedOn date).under holidays = .yes)) ∧
        ∀ assumeClosed,
          ((s.withRules (before ++ r :: after)).isAvailable m assumeClosed).under holidays =
              true →
            (s.isAvailable m assumeClosed).under holidays = true) := by
  refine ⟨?_, ?_, ?_, ?_, ?_⟩
  · exact isAvailable_mono (Tristate.le_refl _) (Tristate.le_refl _) (fun _ => rfl)
  · exact fun ws h => answersLike_of_eq (s.times.under_openState_perm h) fun _ => rfl
  · exact fun rs h => answersLike_of_eq rfl fun _ => s.closedDays.under_isClosedOn_perm h
  · intro before after w hsplit hwindows hclosed hclock
    have hsub : s.times.windows ⊆ before ++ w :: after := by
      rw [hsplit]
      exact List.append_subset.2 ⟨List.subset_append_left _ _,
        List.subset_append_of_subset_right _ (List.subset_cons_self w after)⟩
    have hopen : (s.times.openState m).under holidays ≤
        ((s.withWindows (before ++ w :: after)).times.openState m).under holidays :=
      OpeningTimes.under_openState_mono hwindows hclosed hclock hsub
    exact ⟨hopen, fun _ => isAvailable_mono hopen (Tristate.le_refl _) id⟩
  · intro before after r hsplit hrules
    have hdate : (s.isClosedOn m.date).under holidays ≤
        ((s.withRules (before ++ r :: after)).isClosedOn m.date).under holidays :=
      Tristate.le_of_eq_or_no_yes (ClosedDays.under_isClosedOn_insert hsplit hrules r)
    exact ⟨fun _ => ClosedDays.under_isClosedOn_insert hsplit hrules r,
      fun _ => isAvailable_mono (Tristate.le_refl _) hdate id⟩

/-- Open from nine with no fixed end, and closed on Mondays. On a Thursday at noon this leaves the
matter open; a window from ten to three settles it, and a rule for Thursdays settles it the other
way. -/
theorem answers_perm_mono_openEnd :
    let openEnd : TimeWindow := .between { minuteOfDay := 540 } none
    let mondays : ClosureRule := .weekly (.single .mon) false false false
    let s : Schedule := { times := { windows := [openEnd] }, closedDays := { rules := [mondays] } }
    let m : Moment :=
      { date := { year := 2026, month := 1, day := 1 }, time := { minuteOfDay := 720 } }
    let w : TimeWindow := .between { minuteOfDay := 600 } (some { minuteOfDay := 900 })
    let r : ClosureRule := .weekly (.single .thu) false false false
    let g : HolidayCalendar := fun _ => false
    (s.times.windows ≠ [] ∧ s.times.isClosed = false ∧ s.times.isAroundTheClock = false ∧
      s.closedDays.rules ≠ []) ∧
    (s.times.openState m).under g ≤ ((s.withWindows [w, openEnd]).times.openState m).under g ∧
    (((s.withRules [r, mondays]).isAvailable m false).under g = true →
      (s.isAvailable m false).under g = true) := by
  intro openEnd mondays s m w r g
  obtain ⟨-, -, -, hwindow, hrule⟩ := s.answers_perm_mono m g
  exact ⟨⟨by decide, rfl, rfl, by decide⟩, (hwindow [] [openEnd] w rfl (by decide) rfl rfl).1,
    (hrule [] [mondays] r rfl (by decide)).2 false⟩

/-- The first window may lower the answer, which is unknown without windows. -/
example :
    let m : Moment :=
      { date := { year := 2026, month := 1, day := 1 }, time := { minuteOfDay := 0 } }
    let w : TimeWindow := .between { minuteOfDay := 540 } (some { minuteOfDay := 1020 })
    let g : HolidayCalendar := fun _ => false
    (({} : OpeningTimes).openState m).under g = .unknown ∧
      ((OpeningTimes.withWindows {} [w]).openState m).under g = .no := by
  decide

end Schedule

end OpeningHours
