import OpeningHours.Proofs.Holiday.Payload
import OpeningHours.Proofs.Text.ByteOrder

/-!
# Which member names a holiday

The keys of an object may spell one date in several ways. The members are put in the order of their
keys, and of those that read as one date the last counts. So a date has the name of the key that
comes last in the order of bytes (**`readHolidays_object`**), of a repeated key that of its last
member, and it does not matter in which order the members of an object are written.
-/

namespace OpeningHours

open Json

variable {year : Int} {date : Date} {name : Text} {body body' : Text}
  {member : Text × Text} {members members' : List (Text × Text)}

/-- The key reads as the date, and in the order of bytes it comes last among those keys that do. -/
structure LastKeyFor (members : List (Text × Text)) (date : Date) (key : Text) : Prop where
  mem : key ∈ members.map Prod.fst
  reads : Date.ofText? (Text.trim key) = some date
  last : ∀ k ∈ members.map Prod.fst, Date.ofText? (Text.trim k) = some date → k ≠ key →
    Text.bytes k < Text.bytes key

/-- The last member with the key has the value. -/
def LastValueFor (members : List (Text × Text)) (key value : Text) : Prop :=
  ∃ front behind, members = front ++ (key, value) :: behind ∧ key ∉ behind.map Prod.fst

/-- A member names a holiday of the year if its key reads as a date of the year. -/
theorem holidayOfMember?_eq_some :
    holidayOfMember? year member = some (date, name) ↔
      Date.ofText? (Text.trim member.1) = some date ∧ date.year = year ∧ member.2 = name := by
  rw [holidayOfMember?]
  cases hread : Date.ofText? (Text.trim member.1) with
  | none => simp
  | some d =>
    simp only [Option.ite_none_right_eq_some, Option.some.injEq, Prod.mk.injEq]
    constructor
    · rintro ⟨hyear, rfl, hname⟩
      exact ⟨rfl, hyear, hname⟩
    · rintro ⟨rfl, hyear, hname⟩
      exact ⟨hyear, rfl, hname⟩

theorem readHolidays_of_object (hbody : Json.read? body = some (.object (members.map stringMember)))
    (year : Int) : readHolidays year body = .ok (holidaysOfMembers year members) := by
  rw [readHolidays, hbody, Option.bind_some, stringMembers?_object]

/-- A key of the object has one value in it: that of its last member. -/
theorem mem_ofList_members {key : Text} :
    (∃ v, (key, v) ∈ OrderedEntries.ofList members) ↔ key ∈ members.map Prod.fst := by
  rw [← OrderedEntries.mem_keys_ofList]
  simp

/-- **A date has the name of the last key** that reads as it. -/
theorem mem_holidaysOfMembers :
    (date, name) ∈ holidaysOfMembers year members ↔ date.year = year ∧
      ∃ key, LastKeyFor members date key ∧ LastValueFor members key name := by
  rw [holidaysOfMembers, HolidayNames.ofList,
    OrderedEntries.mem_ofList_filterMap (OrderedEntries.ascending_ofList members)]
  simp only [holidayOfMember?_eq_some]
  constructor
  · rintro ⟨⟨key, value⟩, hmem, ⟨hreads, hyear, rfl⟩, hlast⟩
    refine ⟨hyear, key, ⟨mem_ofList_members.1 ⟨_, hmem⟩, hreads, ?_⟩,
      OrderedEntries.mem_ofList_iff_append.1 hmem⟩
    intro k hk hkreads hne
    obtain ⟨v, hv⟩ := mem_ofList_members.2 hk
    exact Text.bytes_lt_bytes (hlast (k, v) hv v ⟨hkreads, hyear, rfl⟩ fun h =>
      hne (congrArg Prod.fst h))
  · rintro ⟨hyear, key, hkey, hname⟩
    have hmem := OrderedEntries.mem_ofList_iff_append.2 hname
    refine ⟨(key, name), hmem, ⟨hkey.reads, hyear, rfl⟩, ?_⟩
    rintro ⟨k, v⟩ hv w ⟨hkreads, -, -⟩ hne
    have hkne : k ≠ key := by
      rintro rfl
      have hdistinct := (OrderedEntries.ascending_ofList members).distinct
      rw [OrderedEntries.mem_iff_lookup hdistinct] at hmem hv
      rw [hmem] at hv
      exact hne (congrArg (k, ·) (Option.some.inj hv).symm)
    exact Text.bytes_lt_bytes_iff.1 (hkey.last k (mem_ofList_members.1 ⟨v, hv⟩) hkreads hkne)

/-- The order of members does not matter if each has a key of its own. -/
theorem holidaysOfMembers_perm (hperm : members.Perm members')
    (hkeys : (members.map Prod.fst).Nodup) :
    holidaysOfMembers year members' = holidaysOfMembers year members := by
  have hdistinct : OrderedEntries.Distinct members := List.pairwise_map.1 hkeys
  have hdistinct' : OrderedEntries.Distinct members' :=
    List.pairwise_map.1 ((hperm.map Prod.fst).nodup_iff.1 hkeys)
  have hsame : OrderedEntries.ofList members' = OrderedEntries.ofList members := by
    refine OrderedEntries.eq_of_mem_iff (OrderedEntries.ascending_ofList _)
      (OrderedEntries.ascending_ofList _) fun e => ?_
    rw [OrderedEntries.mem_ofList_of_distinct hdistinct,
      OrderedEntries.mem_ofList_of_distinct hdistinct', hperm.mem_iff]
  rw [holidaysOfMembers, hsame, holidaysOfMembers]

/-- **The holidays that an object of strings names.** They are read for every year, each date once
and in order. A date has a name exactly if it lies in the year and some key reads as it; the name is
that of the last such key in the order of bytes. Members with keys of their own may be written in
any order. -/
theorem readHolidays_object (year : Int)
    (hbody : Json.read? body = some (.object (members.map stringMember))) :
    ∃ names, readHolidays year body = .ok names ∧ names.IsOrdered ∧
      (∀ date name, (date, name) ∈ names ↔ date.year = year ∧
        ∃ key, LastKeyFor members date key ∧ LastValueFor members key name) ∧
      (∀ date ∈ names.dates, date.year = year) ∧
      ∀ members' body', Json.read? body' = some (.object (members'.map stringMember)) →
        members.Perm members' → (members.map Prod.fst).Nodup →
          readHolidays year body' = readHolidays year body := by
  have hread := readHolidays_of_object hbody year
  refine ⟨_, hread, OrderedEntries.ascending_ofList _, fun _ _ => mem_holidaysOfMembers,
    fun _ => year_of_mem_dates_readHolidays hread, ?_⟩
  intro members' body' hbody' hperm hkeys
  rw [readHolidays_of_object hbody', hread, holidaysOfMembers_perm hperm hkeys]

/-- Three spellings of the first of January, the last day of the year before, and no date. -/
def newYearSpellings : List (Text × Text) :=
  [("2026-1-1", "元日"), (" 2026-01-01", "祝日"), ("2026-01-01", "元旦"), ("2025-12-31", "大晦日"),
    ("bogus", "")].map fun (key, name) => (key.toList, name.toList)

/-- The spelling without zeros comes last. -/
theorem readHolidays_newYearSpellings :
    Json.read? (prettyStrings newYearSpellings) =
      some (.object (newYearSpellings.map stringMember)) ∧
    ∃ names, readHolidays 2026 (prettyStrings newYearSpellings) = .ok names ∧
      ((⟨2026, 1, 1, by decide⟩ : Date), "元日".toList) ∈ names := by
  have hbody := read?_prettyStrings newYearSpellings
  obtain ⟨names, hread, -, hmem, -⟩ := readHolidays_object 2026 hbody
  refine ⟨hbody, names, hread, (hmem _ _).2 ⟨rfl, "2026-1-1".toList, ⟨?_, ?_, ?_⟩, ?_⟩⟩
  · decide
  · decide
  · decide
  · exact ⟨[], _, rfl, by decide⟩

end OpeningHours
