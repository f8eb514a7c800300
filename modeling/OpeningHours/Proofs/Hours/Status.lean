import Mathlib.Logic.ExistsUnique
import OpeningHours.Hours.Reading
import OpeningHours.Proofs.Hours.Timeline

/-!
# The four statuses of opening times

A text settles when a facility is open in one of four ways: it never opens, it never closes, it
opens in windows, or the text does not say. Reading has five exits, and each of them leaves exactly
one of these statuses behind.

* `OpeningTimes.HasStatus`, `OpeningTimes.Settled`: a status holds, and no other does;
* `settled_readNormal`: each exit of the reading settles one status;
* `under_openState_eq_unknown_iff`: windows leave the state open exactly where one without an end
  has started and none is surely open;
* **`existsUnique_status`**: every reading has one status, and what the status means for the state
  at a moment.
-/

namespace OpeningHours

/-- How a text settles when a facility is open. -/
inductive OpeningStatus where
  | closed
  | aroundTheClock
  /-- It opens in windows. -/
  | scheduled
  | unknown
  deriving DecidableEq, Repr

namespace OpeningTimes

variable {t r : OpeningTimes} {s : OpeningStatus}

/-- Whether the opening times show the status. -/
def HasStatus (t : OpeningTimes) : OpeningStatus → Prop
  | .closed => t.isClosed = true
  | .aroundTheClock => t.isAroundTheClock = true
  | .scheduled => t.windows ≠ []
  | .unknown => t.isUnknown = true

/-- The opening times show the status and no other. -/
structure Settled (t : OpeningTimes) (s : OpeningStatus) : Prop where
  isClosed : t.isClosed = decide (s = .closed)
  isAroundTheClock : t.isAroundTheClock = decide (s = .aroundTheClock)
  windows : t.windows.isEmpty = decide (s ≠ .scheduled)
  isUnknown : t.isUnknown = decide (s = .unknown)

theorem Settled.hasStatus_iff (h : t.Settled s) (u : OpeningStatus) :
    t.HasStatus u ↔ u = s := by
  cases u with
  | closed =>
    show t.isClosed = true ↔ _
    rw [h.isClosed, decide_eq_true_iff, eq_comm]
  | aroundTheClock =>
    show t.isAroundTheClock = true ↔ _
    rw [h.isAroundTheClock, decide_eq_true_iff, eq_comm]
  | scheduled =>
    show t.windows ≠ [] ↔ _
    rw [ne_eq, ← List.isEmpty_iff, h.windows, decide_eq_true_iff, not_ne_iff, eq_comm]
  | unknown =>
    show t.isUnknown = true ↔ _
    rw [h.isUnknown, decide_eq_true_iff, eq_comm]

/-! ## The exits of the reading -/

/-- Nothing has been read yet. -/
structure Fresh (r : OpeningTimes) : Prop where
  isClosed : r.isClosed = false
  isAroundTheClock : r.isAroundTheClock = false
  windows : r.windows = []
  isUnknown : r.isUnknown = false

/-- The statements of a text settle that there are windows, or that nothing is known. -/
theorem settled_withStatements (hclosed : r.isClosed = false)
    (hclock : r.isAroundTheClock = false) (t : Text) :
    (r.withStatements t).Settled
      (if (readStatements t).1.isEmpty then .unknown else .scheduled) := by
  cases h : (readStatements t).1.isEmpty with
  | true => exact ⟨hclosed, hclock, h, h⟩
  | false => exact ⟨hclosed, hclock, h, h⟩

/-- **Every exit of the reading settles one status.** -/
theorem settled_readNormal (hr : r.Fresh) (t : Text) : ∃ s, (r.readNormal t).Settled s := by
  have hwindows : r.windows.isEmpty = true := List.isEmpty_iff.2 hr.windows
  rw [readNormal]
  split
  · exact ⟨.unknown, hr.isClosed, hr.isAroundTheClock, hwindows, rfl⟩
  · split
    · exact ⟨.aroundTheClock, hr.isClosed, rfl, hwindows, hr.isUnknown⟩
    · dsimp only
      split
      · exact ⟨.closed, rfl, hr.isAroundTheClock, hwindows, hr.isUnknown⟩
      · split
        · exact ⟨.unknown, hr.isClosed, hr.isAroundTheClock, hwindows, rfl⟩
        · refine ⟨_, settled_withStatements ?_ ?_ _⟩
          · exact hr.isClosed
          · exact hr.isAroundTheClock

theorem settled_ofText (raw : Option Text) : ∃ s, (ofText raw).Settled s := by
  cases raw with
  | none => exact ⟨.unknown, rfl, rfl, rfl, rfl⟩
  | some t => exact settled_readNormal ⟨rfl, rfl, rfl, rfl⟩ _

/-! ## The state at a moment -/

theorem Settled.under_openState_unknown (h : t.Settled .unknown) (holidays : HolidayCalendar)
    (m : Moment) : (t.openState m).under holidays = .unknown := by
  have hclosed : t.isClosed = false := h.isClosed
  have hclock : t.isAroundTheClock = false := h.isAroundTheClock
  have hwindows : t.windows.isEmpty = true := h.windows
  rw [openState, hclosed, hclock, hwindows]
  rfl

/-- Windows leave the state open exactly where one without an end has started and none is surely
open. -/
theorem Settled.under_openState_eq_unknown_iff (h : t.Settled .scheduled)
    (holidays : HolidayCalendar) (m : Moment) :
    (t.openState m).under holidays = .unknown ↔
      (∃ w ∈ t.windows, w.finish = none ∧ (w.appliesOn m.date).under holidays = true ∧
        w.Started m) ∧
      ∀ w ∈ t.windows, (w.contains m).under holidays ≠ .yes := by
  have hclosed : t.isClosed = false := h.isClosed
  have hclock : t.isAroundTheClock = false := h.isAroundTheClock
  have hwindows : t.windows.isEmpty = false := h.windows
  have hstate : t.openState m = .strongest (t.windows.map fun w => w.contains m) := by
    rw [openState, hclosed, hclock, hwindows]
    rfl
  have hopen (w : TimeWindow) : (w.contains m).under holidays = .unknown ↔
      w.finish = none ∧ (w.appliesOn m.date).under holidays = true ∧ w.Started m := by
    cases hw : w.finish with
    | none =>
      rw [TimeWindow.under_contains_eq_unknown_iff holidays hw]
      exact (and_iff_right rfl).symm
    | some finish =>
      have hne := TimeWindow.under_contains_ne holidays w m
      rw [hw, Option.isSome_some, if_pos rfl] at hne
      exact ⟨fun h => absurd h hne, fun h => absurd h.1 (by simp)⟩
  have hyes := HolidayQuery.under_strongest_eq_yes holidays (t.windows.map fun w => w.contains m)
  have hno := HolidayQuery.under_strongest_eq_no holidays (t.windows.map fun w => w.contains m)
  simp only [List.mem_map, exists_exists_and_eq_and, forall_exists_index, and_imp,
    forall_apply_eq_imp_iff₂] at hyes hno
  simp only [← hopen, hstate]
  constructor
  · intro hunknown
    rw [hunknown] at hyes hno
    have hnone : ∀ w ∈ t.windows, (w.contains m).under holidays ≠ .yes := by
      intro w hw hcontains
      exact absurd (hyes.2 ⟨w, hw, hcontains⟩) (by decide)
    refine ⟨?_, hnone⟩
    by_contra hall
    refine absurd (hno.2 fun w hw => ?_) (by decide)
    cases hcontains : (w.contains m).under holidays with
    | yes => exact absurd hcontains (hnone w hw)
    | no => rfl
    | unknown => exact absurd ⟨w, hw, hcontains⟩ hall
  · rintro ⟨⟨w, hw, hcontains⟩, hnone⟩
    cases hresult : (HolidayQuery.strongest (t.windows.map fun w => w.contains m)).under
        holidays with
    | yes =>
      obtain ⟨v, hv, hcontains⟩ := hyes.1 hresult
      exact absurd hcontains (hnone v hv)
    | no => exact absurd (hcontains.symm.trans (hno.1 hresult w hw)) (by decide)
    | unknown => rfl

/-- **Every reading has exactly one of the four statuses.** Only the status of windows has any.
Where the text does not say, the state is unknown at every moment; with windows it is unknown
exactly where one without an end applies and has started, and none is surely open. -/
theorem existsUnique_status (raw : Option Text) :
    (∃! s, (ofText raw).HasStatus s) ∧
    (∀ s, s ≠ .scheduled → (ofText raw).HasStatus s → (ofText raw).windows = []) ∧
    ((ofText raw).HasStatus .unknown → ∀ (m : Moment) (holidays : HolidayCalendar),
      ((ofText raw).openState m).under holidays = .unknown) ∧
    ((ofText raw).HasStatus .scheduled → ∀ (m : Moment) (holidays : HolidayCalendar),
      ((ofText raw).openState m).under holidays = .unknown ↔
        (∃ w ∈ (ofText raw).windows, w.finish = none ∧
          (w.appliesOn m.date).under holidays = true ∧ w.Started m) ∧
        ∀ w ∈ (ofText raw).windows, (w.contains m).under holidays ≠ .yes) := by
  obtain ⟨s, hs⟩ := settled_ofText raw
  have hstatus := hs.hasStatus_iff
  refine ⟨⟨s, (hstatus s).2 rfl, fun u hu => (hstatus u).1 hu⟩, ?_, ?_, ?_⟩
  · intro u hne hu
    obtain rfl : u = s := (hstatus u).1 hu
    rw [← List.isEmpty_iff, hs.windows, decide_eq_true_iff]
    exact hne
  · intro hunknown m holidays
    obtain rfl : .unknown = s := (hstatus .unknown).1 hunknown
    exact hs.under_openState_unknown holidays m
  · intro hscheduled m holidays
    obtain rfl : .scheduled = s := (hstatus .scheduled).1 hscheduled
    exact hs.under_openState_eq_unknown_iff holidays m

end OpeningTimes

end OpeningHours
