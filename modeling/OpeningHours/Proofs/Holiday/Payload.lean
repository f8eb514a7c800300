import OpeningHours.Proofs.Calendar.DateText
import OpeningHours.Proofs.Holiday.Names
import OpeningHours.Proofs.Json.StringObject

/-!
# Written holidays are read back

Holidays that were written are read back for a year as those of them that lie in it, with their
names (**`readHolidays_writeHolidays`**), although the members are put in order by their keys in
between, which is not the order of the dates.
-/

namespace OpeningHours

open Json

variable {names : HolidayNames} {year : Int} {e : Date × Text}

/-! ## Members -/

theorem stringMembers?_object (members : List (Text × Text)) :
    stringMembers? (.object (members.map stringMember)) = some members := by
  have hmembers : Value.members? (.object (members.map stringMember)) =
      some (members.map fun member => (member.1, .string (some member.2))) := by
    rw [Value.members?, List.mapM_map]
    exact List.mapM_pure
  have htexts : (members.map fun member => (member.1, Value.string (some member.2))).mapM
      (fun m => m.2.text?.map fun t => (m.1, t)) = some members := by
    rw [List.mapM_map]
    exact (List.mapM_pure (f := id)).trans (congrArg some (List.map_id members))
  rw [stringMembers?, hmembers]
  exact htexts

/-- The member that is written for a holiday. -/
def memberOfHoliday (holiday : Date × Text) : Text × Text :=
  (holiday.1.toText, holiday.2)

theorem writeHolidays_eq (names : HolidayNames) :
    writeHolidays names = prettyStrings (names.map memberOfHoliday) := rfl

/-- A written holiday is read for its year, and for no other. -/
theorem holidayOfMember?_eq_some_iff {holiday : Date × Text} :
    holidayOfMember? year (memberOfHoliday holiday) = some e ↔ holiday = e ∧ holiday.1.year = year := by
  rw [holidayOfMember?, memberOfHoliday, Date.trim_toText, Date.ofText?_toText]
  simp only [Option.ite_none_right_eq_some, Option.some.injEq, Prod.mk.eta]
  exact and_comm

section Members

variable {members : List (Text × Text)}
  (hmembers : ∀ m, m ∈ members ↔ m ∈ names.map memberOfHoliday)

include hmembers

/-- The members of holidays, in whatever order, name those of them that lie in the year. -/
theorem mem_filterMap_holidayOfMember? :
    e ∈ members.filterMap (holidayOfMember? year) ↔ e ∈ names.filter fun e => e.1.year == year := by
  simp only [List.mem_filterMap, hmembers, List.mem_map, List.mem_filter, beq_iff_eq]
  constructor
  · rintro ⟨-, ⟨holiday, hmem, rfl⟩, hread⟩
    obtain ⟨rfl, hyear⟩ := holidayOfMember?_eq_some_iff.1 hread
    exact ⟨hmem, hyear⟩
  · rintro ⟨hmem, hyear⟩
    exact ⟨_, ⟨e, hmem, rfl⟩, holidayOfMember?_eq_some_iff.2 ⟨rfl, hyear⟩⟩

theorem distinct_filterMap_holidayOfMember? (h : OrderedEntries.Distinct members) :
    OrderedEntries.Distinct (members.filterMap (holidayOfMember? year)) := by
  refine List.pairwise_filterMap.2 (h.imp_of_mem ?_)
  intro m m' hm hm' hne e he e' he' heq
  obtain ⟨holiday, -, rfl⟩ := List.mem_map.1 ((hmembers m).1 hm)
  obtain ⟨holiday', -, rfl⟩ := List.mem_map.1 ((hmembers m').1 hm')
  obtain ⟨rfl, -⟩ := holidayOfMember?_eq_some_iff.1 he
  obtain ⟨rfl, -⟩ := holidayOfMember?_eq_some_iff.1 he'
  exact hne (congrArg Date.toText heq)

end Members

/-! ## Holidays -/

theorem distinct_map_memberOfHoliday (h : names.IsOrdered) :
    OrderedEntries.Distinct (names.map memberOfHoliday) := by
  refine List.pairwise_map.2 (h.distinct.imp fun hne => ?_)
  exact fun htext => hne (Date.toText_injective htext)

/-- **Written holidays are read back** for a year: those that lie in it, with their names. -/
theorem readHolidays_writeHolidays (h : names.IsOrdered) :
    readHolidays year (writeHolidays names) = .ok (names.filter fun e => e.1.year == year) := by
  have hread : (Json.read? (writeHolidays names)).bind stringMembers? =
      some (names.map memberOfHoliday) := by
    rw [writeHolidays_eq, read?_prettyStrings, Option.bind_some, stringMembers?_object]
  have hmembers : ∀ m, m ∈ OrderedEntries.ofList (names.map memberOfHoliday) ↔
      m ∈ names.map memberOfHoliday := fun _ =>
    OrderedEntries.mem_ofList_of_distinct (distinct_map_memberOfHoliday h)
  have hdistinct : OrderedEntries.Distinct
      ((OrderedEntries.ofList (names.map memberOfHoliday)).filterMap (holidayOfMember? year)) :=
    distinct_filterMap_holidayOfMember? hmembers (OrderedEntries.ascending_ofList _).distinct
  have hholidays : holidaysOfMembers year (names.map memberOfHoliday) =
      names.filter fun e => e.1.year == year := by
    refine OrderedEntries.eq_of_mem_iff (OrderedEntries.ascending_ofList _)
      (List.Pairwise.filter _ h) fun e => ?_
    rw [holidaysOfMembers, HolidayNames.ofList, OrderedEntries.mem_ofList_of_distinct hdistinct,
      mem_filterMap_holidayOfMember? hmembers]
  rw [readHolidays, hread]
  exact congrArg Except.ok hholidays

end OpeningHours
