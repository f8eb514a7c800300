import OpeningHours.Proofs.Holiday.Names
import OpeningHours.Proofs.Holiday.Questions

/-!
# A cache in memory

Without a folder a cache asks its source once for every year in use, whatever comes of it, and goes
on to answer from what it got then (**`answers_inMemory`**). If the source gives for each year dates
of that year only, the cache answers as a fixed list of all these dates does.

* `mem_rememberedYears`, `pairwise_rememberedYears`: the years in memory;
* `FixedHolidays.answer_flatMap`: a fixed list answers from the part that lies in the year.
-/

namespace OpeningHours

variable {years : List Int} {fetched : Int → List Date} {dates : List Date} {d : Date} {y : Int}

/-! ## Fixed lists -/

namespace FixedHolidays

/-- The answer of a fixed list of holidays. -/
def answer (f : FixedHolidays) : CacheQuestion → CacheAnswer
  | .isHoliday date => .isHoliday (f.calendar date)
  | .getHolidays year => .holidays (f.inYear year)
  | .holidays year => .holidays (f.inYear year)

end FixedHolidays

/-- Dates in order, all of them in one year. -/
def AreOfYear (year : Int) (dates : List Date) : Prop :=
  dates.Pairwise (· < ·) ∧ ∀ d ∈ dates, d.year = year

instance (year : Int) (dates : List Date) : Decidable (AreOfYear year dates) :=
  inferInstanceAs (Decidable (_ ∧ _))

theorem mem_flatMap_and_year (h : ∀ y ∈ years, AreOfYear y (fetched y)) (hy : y ∈ years) :
    d ∈ years.flatMap fetched ∧ d.year = y ↔ d ∈ fetched y := by
  constructor
  · rintro ⟨hd, rfl⟩
    obtain ⟨z, hz, hdz⟩ := List.mem_flatMap.1 hd
    rwa [(h z hz).2 d hdz]
  · intro hd
    exact ⟨List.mem_flatMap.2 ⟨y, hy, hd⟩, (h y hy).2 d hd⟩

/-- A fixed list made of the dates of several years answers from the dates of the year in
question. -/
theorem FixedHolidays.answer_flatMap (h : ∀ y ∈ years, AreOfYear y (fetched y))
    {q : CacheQuestion} (hq : q.year ∈ years) :
    (FixedHolidays.mk (years.flatMap fetched)).answer q = q.answerFrom (fetched q.year) := by
  have hinYear {y : Int} (hy : y ∈ years) :
      (FixedHolidays.mk (years.flatMap fetched)).inYear y = fetched y := by
    refine (eq_ascendingDates (h y hy).1 fun d => ?_).symm
    rw [← mem_flatMap_and_year h hy, List.mem_filter, beq_iff_eq]
  cases q with
  | isHoliday date =>
    have hmem := mem_flatMap_and_year (d := date) h hq
    have hcontains : (years.flatMap fetched).contains date = (fetched date.year).contains date := by
      rw [Bool.eq_iff_iff, List.contains_iff_mem, List.contains_iff_mem]
      exact ⟨fun hd => hmem.1 ⟨hd, rfl⟩, fun hd => (hmem.2 hd).1⟩
    exact congrArg CacheAnswer.isHoliday hcontains
  | getHolidays year => exact congrArg CacheAnswer.holidays (hinYear hq)
  | holidays year => exact congrArg CacheAnswer.holidays (hinYear hq)

namespace HolidayCache

variable {source : HolidaySource} {folder : Option DiskPath} {disk : Disk} {c : HolidayCache}

/-! ## The years in memory -/

theorem pairwise_rememberedYears (c : HolidayCache) : c.rememberedYears.Pairwise (· < ·) :=
  (OrderedEntries.ascending_ofList _).keys

/-- The years in memory are the years in use. -/
theorem mem_rememberedYears (h : Holds source folder disk years c) :
    y ∈ c.rememberedYears ↔ y ∈ years := by
  rw [rememberedYears, OrderedEntries.mem_keys_ofList, List.map_map]
  show y ∈ c.years.map Prod.fst ↔ y ∈ years
  rw [← not_iff_not, ← OrderedEntries.lookup_eq_none_iff_keys, h.lookup_eq]
  by_cases hy : y ∈ years <;> simp [hy]

/-! ## Answers -/

theorem fetchedYears_none (years : List Int) : fetchedYears (fun _ => none) years = years :=
  List.filter_eq_self.2 fun _ _ => rfl

/-- **A cache in memory fetches once and answers from that.** The source is asked for each year in
use, in the order of first use; every answer is made from the dates that it gave then, none if it
failed; and the years in memory are the years in use, in ascending order. If all dates are of the
year for which they were given, a fixed list of the dates answers alike. -/
theorem answers_inMemory (source : HolidaySource) (disk : Disk) (qs : List CacheQuestion) :
    let years := CacheQuestion.years qs
    let fetched := fetchedDates source years
    let run := answers source none qs { disk }
    run.2.asked = years ∧
      run.1 = qs.map (fun q => q.answerFrom (fetched q.year)) ∧
      (run.2.rememberedYears.Pairwise (· < ·) ∧ ∀ y, y ∈ run.2.rememberedYears ↔ y ∈ years) ∧
      ((∀ y ∈ years, AreOfYear y (fetched y)) →
        run.1 = qs.map (FixedHolidays.mk (years.flatMap fetched)).answer) := by
  intro years fetched run
  obtain ⟨hanswers, hholds⟩ := holds_answers source none disk qs
  have hstored : storedYear? none disk = fun _ => none := rfl
  have hdates : yearDates source (storedYear? none disk) years = fetched := by
    funext year
    rw [hstored, yearDates, fetchedYears_none]
  rw [hdates] at hanswers
  refine ⟨?_, hanswers, ⟨pairwise_rememberedYears _, fun y => mem_rememberedYears hholds⟩, ?_⟩
  · rw [hholds.asked_eq, hstored, fetchedYears_none]
  · intro hyears
    rw [hanswers]
    refine List.map_congr_left fun q hq => ?_
    have hmem : q.year ∈ years := List.mem_eraseDups.2 (List.mem_map_of_mem hq)
    exact (FixedHolidays.answer_flatMap hyears hmem).symm

/-- A source that fails the second time it is asked, and questions about two years. -/
theorem answers_inMemory_secondFails :
    let source : HolidaySource := fun asked year =>
      if asked.length = 1 then none
      else (Date.ofYmd? year 1 1).map fun d => [(d, "元日".toList)]
    let qs : List CacheQuestion := [.isHoliday { year := 2027, month := 1, day := 1 },
      .getHolidays 2026, .isHoliday { year := 2027, month := 1, day := 2 }, .holidays 2026]
    let years := CacheQuestion.years qs
    let fetched := fetchedDates source years
    (∀ y ∈ years, AreOfYear y (fetched y)) ∧
      (answers source none qs {}).1 = qs.map (FixedHolidays.mk (years.flatMap fetched)).answer := by
  intro source qs years fetched
  have hyears : ∀ y ∈ years, AreOfYear y (fetched y) := by decide
  exact ⟨hyears, (answers_inMemory source {} qs).2.2.2 hyears⟩

end HolidayCache

end OpeningHours
