import OpeningHours.Proofs.Holiday.Payload
import OpeningHours.Proofs.Holiday.Questions

/-!
# A cache that is started again

A year that was fetched and could be kept is there for every later cache with the same folder: it is
read from its file, and the source is not asked (**`holidays_afterRestart`**). What carries this over
the time between is that a cache has the year both in memory and on the disk (`HasKept`), which no
question changes (`hasKept_answers`).
-/

namespace OpeningHours

namespace HolidayCache

variable {source : HolidaySource} {folder : DiskPath} {year y : Int} {dates ds : List Date}
  {names : HolidayNames} {c c' : HolidayCache}

/-! ## What stays -/

/-- The cache remembers the dates of the year, and the file of the year reads as the holidays. -/
structure HasKept (folder : DiskPath) (year : Int) (dates : List Date) (names : HolidayNames)
    (c : HolidayCache) : Prop where
  lookup_eq : c.years.lookup year = some dates
  readYear?_eq : readYear? c.disk folder year = some names

/-- One question keeps what was kept. -/
theorem HasKept.loading (h : HasKept folder year dates names c)
    (hload : Loading source (some folder) y c ds c') : HasKept folder year dates names c' := by
  have hne (hnew : c.years.lookup y = none) : year ≠ y := by
    rintro rfl
    simp [h.lookup_eq] at hnew
  cases hload with
  | remembered => exact h
  | read hnew =>
    exact ⟨(lookup_remember_of_ne (hne hnew)).trans h.lookup_eq, h.readYear?_eq⟩
  | failed hnew =>
    exact ⟨(lookup_remember_of_ne (hne hnew)).trans h.lookup_eq, h.readYear?_eq⟩
  | @fetched others hnew =>
    have hfile := readYear?_of_onlyKeeps (onlyKeeps_keepYear c.disk folder y others) (hne hnew)
    exact ⟨(lookup_remember_of_ne (hne hnew)).trans h.lookup_eq, hfile.trans h.readYear?_eq⟩

/-- A run keeps what was kept. -/
theorem hasKept_answers (h : HasKept folder year dates names c) (qs : List CacheQuestion) :
    HasKept folder year dates names (answers source (some folder) qs c).2 := by
  induction qs generalizing c with
  | nil => exact h
  | cons q qs ih =>
    rw [answers_cons, answer_eq]
    exact ih (h.loading (loading_holidays source (some folder) q.year c))

/-- A year that was fetched and could be kept stays. -/
theorem hasKept_holidays (hnew : c.years.lookup year = none)
    (hdisk : readYear? c.disk folder year = none) (hsource : source c.asked year = some names)
    (hordered : names.IsOrdered) (hkeep : canKeep c.disk folder year names = true) :
    HasKept folder year names.dates (names.filter fun e => e.1.year == year)
      (holidays source (some folder) year c).2 := by
  have hfetched : (holidays source (some folder) year c).2 =
      { c with
        asked := c.asked ++ [year]
        disk := keepYear c.disk folder year names }.remember year names.dates := by
    simp only [holidays, hnew, Option.bind_some, hdisk, fetch, hsource]
  rw [hfetched]
  refine ⟨?_, ?_⟩
  · simp [remember]
  · show readYear? (keepYear c.disk folder year names) folder year = _
    rw [readYear?, readText?_keepYear hkeep, Option.bind_some, readHolidays_writeHolidays hordered]

/-! ## Starting again -/

/-- What a new cache gets for a year that is on the disk, however many questions it has answered
before: the dates in the file, without asking the source. -/
theorem holidays_of_readYear? (source : HolidaySource) {disk : Disk}
    (h : readYear? disk folder year = some names) (qs : List CacheQuestion) :
    let fresh := (answers source (some folder) qs { disk }).2
    (holidays source (some folder) year fresh).1 = names.dates ∧
      (holidays source (some folder) year fresh).2.asked = fresh.asked ∧ year ∉ fresh.asked := by
  intro fresh
  obtain ⟨-, hholds⟩ := holds_answers source (some folder) disk qs
  obtain ⟨hdates, hnext⟩ := hholds.loading (loading_holidays source (some folder) year fresh)
  have hstored : storedYear? (some folder) disk year = some names := h
  refine ⟨hdates.trans (yearDates_of_stored source _ hstored), ?_, ?_⟩
  · have hnot (used : List Int) : fetchedYears (storedYear? (some folder) disk) (used ++ [year]) =
        fetchedYears (storedYear? (some folder) disk) used := by
      simp [fetchedYears, hstored]
    rw [hnext.asked_eq, hholds.asked_eq, use]
    split
    · rfl
    · exact hnot _
  · rw [hholds.asked_eq, mem_fetchedYears, hstored]
    simp

theorem dates_filter (names : HolidayNames) (year : Int) :
    HolidayNames.dates (names.filter fun e => e.1.year == year) =
      names.dates.filter fun d => d.year == year := by
  rw [HolidayNames.dates, HolidayNames.dates, List.filter_map]
  rfl

/-- **A year that was kept survives a restart.** The first cache fetches a year that is neither in
memory nor on the disk, and the year can be kept; later it answers further questions. A new cache
with the same folder and any source, whatever it has answered before, gets for this year the dates
that lie in it without asking its source, and calls the same dates of the year holidays. If all
dates lie in the year, what was written reads as what was fetched, names included. -/
theorem holidays_afterRestart (source source' : HolidaySource) (folder : DiskPath) (year : Int)
    (c : HolidayCache) (names : HolidayNames) (qs qs' : List CacheQuestion)
    (hnew : c.years.lookup year = none) (hdisk : readYear? c.disk folder year = none)
    (hsource : source c.asked year = some names) (hordered : names.IsOrdered)
    (hkeep : canKeep c.disk folder year names = true) :
    let first := (answers source (some folder) qs (holidays source (some folder) year c).2).2
    let second := (answers source' (some folder) qs' { disk := first.disk }).2
    let loaded := holidays source' (some folder) year second
    (year ∉ second.asked ∧ loaded.2.asked = second.asked) ∧
      loaded.1 = (holidays source (some folder) year first).1.filter (fun d => d.year == year) ∧
      (∀ date, date.year = year → (isHoliday source' (some folder) date second).1 =
        (isHoliday source (some folder) date first).1) ∧
      ((∀ d ∈ names.dates, d.year = year) →
        readHolidays year (writeHolidays names) = .ok names) := by
  intro first second loaded
  have hkept : HasKept folder year names.dates (names.filter fun e => e.1.year == year) first :=
    hasKept_answers (hasKept_holidays hnew hdisk hsource hordered hkeep) qs
  obtain ⟨hloaded, hasked, hnot⟩ := holidays_of_readYear? source' hkept.readYear?_eq qs'
  have hfirst : (holidays source (some folder) year first).1 = names.dates := by
    simp only [holidays, hkept.lookup_eq]
  rw [dates_filter, ← hfirst] at hloaded
  refine ⟨⟨hnot, hasked⟩, hloaded, ?_, ?_⟩
  · rintro date rfl
    show loaded.1.contains date = (holidays source (some folder) date.year first).1.contains date
    rw [hloaded, Bool.eq_iff_iff, List.contains_iff_mem, List.contains_iff_mem, List.mem_filter]
    simp
  · intro hyear
    rw [readHolidays_writeHolidays hordered, List.filter_eq_self.2]
    intro e he
    rw [beq_iff_eq]
    exact hyear e.1 (List.mem_map_of_mem he)

/-- A name with quotes, a backslash and a line break, beside dates of other years. -/
theorem holidays_afterRestart_escapedName :
    let newYear : Date := { year := 2026, month := 1, day := 1 }
    let names : HolidayNames := [({ year := -5, month := 2, day := 11 }, []),
      (newYear, "\"元\\日\"\n".toList), ({ year := 12345, month := 5, day := 3 }, "憲法".toList)]
    let source : HolidaySource := fun _ _ => some names
    let folder : DiskPath := ["cache".toList]
    let first := (holidays source (some folder) 2026 {}).2
    (holidays source (some folder) 2026 first).1 = names.dates ∧
      (holidays (fun _ _ => none) (some folder) 2026 { disk := first.disk }).1 = [newYear] := by
  intro newYear names source folder first
  have hordered : names.IsOrdered := by
    rw [HolidayNames.IsOrdered, OrderedEntries.Ascending]
    decide
  have hkeep : canKeep {} folder 2026 names = true := by decide +kernel
  have hdates : (holidays source (some folder) 2026 first).1 = names.dates := by decide +kernel
  refine ⟨hdates, ?_⟩
  have hrestart := holidays_afterRestart source (fun _ _ => none) folder 2026 {} names [] []
    rfl rfl rfl hordered hkeep
  have hloaded := hrestart.2.1
  rw [answers, answers] at hloaded
  rw [hloaded, hdates]
  decide

end HolidayCache

end OpeningHours
