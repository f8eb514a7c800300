import OpeningHours.Holiday.Payload
import OpeningHours.Proofs.Calendar.DayCount
import OpeningHours.Proofs.Holiday.OrderedEntries

/-!
# The dates of holidays

The dates of a list, each once and in order, are determined by the members of the list
(`eq_ascendingDates`). The holidays that are read for a year all lie in that year
(`year_of_mem_dates_readHolidays`).
-/

namespace OpeningHours

variable {dates dates' : List Date} {d : Date} {year : Int}

theorem pairwise_ascendingDates (dates : List Date) : (ascendingDates dates).Pairwise (· < ·) :=
  (OrderedEntries.ascending_ofList _).keys

theorem mem_ascendingDates : d ∈ ascendingDates dates ↔ d ∈ dates := by
  rw [ascendingDates, OrderedEntries.mem_keys_ofList, List.map_map]
  exact iff_of_eq (congrArg (d ∈ ·) (List.map_id dates))

/-- Dates in order are the ascending dates of every list with the same members. -/
theorem eq_ascendingDates (h : dates.Pairwise (· < ·)) (hmem : ∀ d, d ∈ dates ↔ d ∈ dates') :
    dates = ascendingDates dates' := by
  have : Std.Antisymm (α := Date) (· < ·) := ⟨fun a b hab hba =>
    absurd (Trans.trans hab hba) (Std.Irrefl.irrefl (r := fun a b : Date => a < b) a)⟩
  refine List.Pairwise.eq_of_mem_iff h (pairwise_ascendingDates dates') fun d => ?_
  rw [hmem, mem_ascendingDates]

namespace HolidayNames

/-- The holidays stand in the order of their dates, each date once. -/
def IsOrdered (names : HolidayNames) : Prop :=
  OrderedEntries.Ascending names

end HolidayNames

/-! ## Holidays that are read -/

theorem year_of_holidayOfMember? {member : Text × Text} {e : Date × Text}
    (h : holidayOfMember? year member = some e) : e.1.year = year := by
  rw [holidayOfMember?] at h
  split at h
  · split at h
    · next hyear => rw [← Option.some.inj h, hyear]
    · simp at h
  · simp at h

/-- What is read for a year lies in that year. -/
theorem year_of_mem_dates_readHolidays {body : Text} {names : HolidayNames}
    (h : readHolidays year body = .ok names) (hd : d ∈ names.dates) : d.year = year := by
  rw [readHolidays] at h
  split at h
  · next members _ =>
    obtain rfl := Except.ok.inj h
    have hkey := OrderedEntries.mem_keys_ofList.1 hd
    obtain ⟨e, he, rfl⟩ := List.mem_map.1 hkey
    obtain ⟨member, -, hmember⟩ := List.mem_filterMap.1 he
    exact year_of_holidayOfMember? hmember
  · simp at h

end OpeningHours
