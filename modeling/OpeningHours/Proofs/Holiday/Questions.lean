import Mathlib.Data.List.Induction
import OpeningHours.Proofs.Holiday.YearFile

/-!
# Questions to a cache

A new cache is asked for holidays, one question after another. What a single question does is said
once, by `Loading`: the year is remembered, read from its file, or fetched, with or without success.
From this follows what the cache `Holds` after every run (**`holds_answers`**): each answer is made
from the dates that its year had at its first use, and these depend on the source and on what was
stored on the disk at the start, but on nothing that happens to the disk later.
-/

namespace OpeningHours

/-- A question to a cache. -/
inductive CacheQuestion where
  | isHoliday (date : Date)
  /-- The holidays of a year, as a copy. -/
  | getHolidays (year : Int)
  /-- The holidays of a year, shared with the cache. -/
  | holidays (year : Int)
  deriving DecidableEq, Repr

/-- The answer to a question. -/
inductive CacheAnswer where
  | isHoliday (b : Bool)
  | holidays (dates : List Date)
  deriving DecidableEq, Repr

namespace CacheQuestion

/-- The year whose holidays answer the question. -/
def year : CacheQuestion → Int
  | isHoliday date => date.year
  | getHolidays year => year
  | holidays year => year

/-- The answer that the holidays of the year give. -/
def answerFrom (dates : List Date) : CacheQuestion → CacheAnswer
  | isHoliday date => .isHoliday (dates.contains date)
  | getHolidays _ => .holidays dates
  | holidays _ => .holidays dates

/-- The years of the questions in the order of their first use, each once. -/
def years (qs : List CacheQuestion) : List Int :=
  (qs.map year).eraseDups

end CacheQuestion

namespace HolidayCache

variable {source : HolidaySource} {folder : Option DiskPath} {disk : Disk} {year y : Int}
  {stored : Int → Option HolidayNames} {used asked : List Int} {dates : List Date}
  {c c' : HolidayCache}

/-- The answer to a question, and the cache that this leaves. -/
def answer (source : HolidaySource) (folder : Option DiskPath) (q : CacheQuestion)
    (c : HolidayCache) : CacheAnswer × HolidayCache :=
  match q with
  | .isHoliday date =>
    let (b, c) := isHoliday source folder date c
    (.isHoliday b, c)
  | .getHolidays year =>
    let (dates, c) := holidays source folder year c
    (.holidays dates, c)
  | .holidays year =>
    let (dates, c) := holidays source folder year c
    (.holidays dates, c)

/-- The answers to questions asked one after another, and the cache that they leave. -/
def answers (source : HolidaySource) (folder : Option DiskPath) :
    List CacheQuestion → HolidayCache → List CacheAnswer × HolidayCache
  | [], c => ([], c)
  | q :: qs, c =>
    let (first, c) := answer source folder q c
    let (rest, c) := answers source folder qs c
    (first :: rest, c)

theorem answer_eq (source : HolidaySource) (folder : Option DiskPath) (q : CacheQuestion)
    (c : HolidayCache) : answer source folder q c =
      (q.answerFrom (holidays source folder q.year c).1, (holidays source folder q.year c).2) := by
  cases q <;> rfl

theorem answers_cons (source : HolidaySource) (folder : Option DiskPath) (q : CacheQuestion)
    (qs : List CacheQuestion) (c : HolidayCache) : answers source folder (q :: qs) c =
      ((answer source folder q c).1 :: (answers source folder qs (answer source folder q c).2).1,
        (answers source folder qs (answer source folder q c).2).2) := rfl

theorem answers_concat (source : HolidaySource) (folder : Option DiskPath)
    (qs : List CacheQuestion) (q : CacheQuestion) (c : HolidayCache) :
    answers source folder (qs ++ [q]) c =
      ((answers source folder qs c).1 ++ [(answer source folder q (answers source folder qs c).2).1],
        (answer source folder q (answers source folder qs c).2).2) := by
  induction qs generalizing c with
  | nil => rfl
  | cons p qs ih =>
    rw [List.cons_append, answers_cons, answers_cons, ih]
    rfl

/-! ## What one question does -/

/-- The holidays of a year on the disk, if there is a folder and the file can be read. -/
def storedYear? (folder : Option DiskPath) (disk : Disk) (year : Int) : Option HolidayNames :=
  folder.bind fun folder => readYear? disk folder year

/-- The disk after keeping the holidays of a year, if there is a folder. -/
def keepIn (folder : Option DiskPath) (disk : Disk) (year : Int) (names : HolidayNames) : Disk :=
  match folder with
  | none => disk
  | some folder => keepYear disk folder year names

/-- How a cache comes by the dates of a year, and what this makes of it. -/
inductive Loading (source : HolidaySource) (folder : Option DiskPath) (year : Int)
    (c : HolidayCache) : List Date → HolidayCache → Prop where
  | remembered {dates : List Date} (h : c.years.lookup year = some dates) :
    Loading source folder year c dates c
  | read {names : HolidayNames} (hnew : c.years.lookup year = none)
      (h : storedYear? folder c.disk year = some names) :
    Loading source folder year c names.dates (c.remember year names.dates)
  | failed (hnew : c.years.lookup year = none) (hdisk : storedYear? folder c.disk year = none)
      (h : source c.asked year = none) :
    Loading source folder year c [] ({ c with asked := c.asked ++ [year] }.remember year [])
  | fetched {names : HolidayNames} (hnew : c.years.lookup year = none)
      (hdisk : storedYear? folder c.disk year = none) (h : source c.asked year = some names) :
    Loading source folder year c names.dates
      ({ c with
        asked := c.asked ++ [year]
        disk := keepIn folder c.disk year names }.remember year names.dates)

theorem loading_holidays (source : HolidaySource) (folder : Option DiskPath) (year : Int)
    (c : HolidayCache) : Loading source folder year c (holidays source folder year c).1
      (holidays source folder year c).2 := by
  cases hnew : c.years.lookup year with
  | some dates =>
    simp only [holidays, hnew]
    exact .remembered hnew
  | none =>
    cases hdisk : storedYear? folder c.disk year with
    | some names =>
      have hread := hdisk
      rw [storedYear?] at hread
      simp only [holidays, hnew, hread]
      exact .read hnew hdisk
    | none =>
      have hread := hdisk
      rw [storedYear?] at hread
      cases hsource : source c.asked year with
      | none =>
        simp only [holidays, hnew, hread, fetch, hsource]
        exact .failed hnew hdisk hsource
      | some names =>
        have hfetched := Loading.fetched hnew hdisk hsource
        simp only [holidays, hnew, hread, fetch, hsource]
        cases folder <;> exact hfetched

/-! ## What a run leads to -/

/-- The years that are asked of the source: those in use that are not stored. -/
def fetchedYears (stored : Int → Option HolidayNames) (used : List Int) : List Int :=
  used.filter fun year => (stored year).isNone

/-- The dates that the source gives for a year when it is asked for years one after another. A
failure gives none. -/
def fetchedDates (source : HolidaySource) (asked : List Int) (year : Int) : List Date :=
  match source (asked.takeWhile (· != year)) year with
  | some names => names.dates
  | none => []

/-- The dates of a year in use: those stored, else those fetched. -/
def yearDates (source : HolidaySource) (stored : Int → Option HolidayNames) (used : List Int)
    (year : Int) : List Date :=
  match stored year with
  | some names => names.dates
  | none => fetchedDates source (fetchedYears stored used) year

theorem takeWhile_ne_append (h : year ∈ asked) (more : List Int) :
    (asked ++ more).takeWhile (· != year) = asked.takeWhile (· != year) := by
  induction asked with
  | nil => simp at h
  | cons x asked ih =>
    by_cases hx : x = year
    · simp [hx]
    · have hmem : year ∈ asked := (List.mem_cons.1 h).resolve_left (Ne.symm hx)
      simp [hx, ih hmem]

theorem takeWhile_ne_concat (h : year ∉ asked) :
    (asked ++ [year]).takeWhile (· != year) = asked := by
  have hall : ∀ x ∈ asked, (x != year) = true := by
    intro x hx
    rw [bne_iff_ne]
    rintro rfl
    exact h hx
  rw [List.takeWhile_append_of_pos hall, List.takeWhile_cons_of_neg (by simp), List.append_nil]

theorem yearDates_of_stored (source : HolidaySource) (used : List Int) {names : HolidayNames}
    (h : stored year = some names) : yearDates source stored used year = names.dates := by
  rw [yearDates, h]

theorem mem_fetchedYears : year ∈ fetchedYears stored used ↔ year ∈ used ∧ stored year = none := by
  rw [fetchedYears, List.mem_filter, Option.isNone_iff_eq_none]

/-- Years that come into use later change no dates. -/
theorem yearDates_append (h : year ∈ used) (more : List Int) :
    yearDates source stored (used ++ more) year = yearDates source stored used year := by
  rw [yearDates, yearDates]
  split
  · rfl
  · next hstored =>
    have hmem : year ∈ fetchedYears stored used := mem_fetchedYears.2 ⟨h, hstored⟩
    rw [fetchedDates, fetchedDates, fetchedYears, List.filter_append, ← fetchedYears,
      takeWhile_ne_append hmem]

/-- What a year that is not stored gets when it comes into use. -/
theorem yearDates_concat (source : HolidaySource) (h : year ∉ used) (hstored : stored year = none) :
    yearDates source stored (used ++ [year]) year =
      match source (fetchedYears stored used) year with
      | some names => names.dates
      | none => [] := by
  have hyears : fetchedYears stored (used ++ [year]) = fetchedYears stored used ++ [year] := by
    simp [fetchedYears, hstored]
  have hnot : year ∉ fetchedYears stored used := fun hmem => h (mem_fetchedYears.1 hmem).1
  simp only [yearDates, hstored, fetchedDates, hyears, takeWhile_ne_concat hnot]

/-- What a new cache on a disk holds after the years `used` have come into use. -/
structure Holds (source : HolidaySource) (folder : Option DiskPath) (disk : Disk)
    (used : List Int) (c : HolidayCache) : Prop where
  asked_eq : c.asked = fetchedYears (storedYear? folder disk) used
  lookup_eq : ∀ year, c.years.lookup year =
    if year ∈ used then some (yearDates source (storedYear? folder disk) used year) else none
  stored_eq : ∀ year, year ∉ used → storedYear? folder c.disk year = storedYear? folder disk year

theorem holds_new (source : HolidaySource) (folder : Option DiskPath) (disk : Disk) :
    Holds source folder disk [] { disk } where
  asked_eq := rfl
  lookup_eq _ := rfl
  stored_eq _ _ := rfl

/-- Keeping a year leaves the other years as they are stored. -/
theorem storedYear?_keepIn {names : HolidayNames} (h : y ≠ year) :
    storedYear? folder (keepIn folder disk year names) y = storedYear? folder disk y := by
  cases folder with
  | none => rfl
  | some folder => exact readYear?_of_onlyKeeps (onlyKeeps_keepYear disk folder year names) h

/-- Remembering a year leaves the others as they are. -/
theorem lookup_remember_of_ne (h : y ≠ year) :
    (c.remember year dates).years.lookup y = c.years.lookup y := by
  have hbeq : (y == year) = false := by simpa using h
  rw [HolidayCache.remember, List.lookup_cons, hbeq]

/-- A year comes into use. -/
theorem Holds.remember (h : Holds source folder disk used c) (hyear : year ∉ used)
    (hyears : c'.years = c.years)
    (hasked : c'.asked = fetchedYears (storedYear? folder disk) (used ++ [year]))
    (hstored : ∀ y, y ≠ year → storedYear? folder c'.disk y = storedYear? folder c.disk y)
    (hdates : dates = yearDates source (storedYear? folder disk) (used ++ [year]) year) :
    Holds source folder disk (used ++ [year]) (c'.remember year dates) where
  asked_eq := hasked
  lookup_eq y := by
    by_cases hy : y = year
    · subst hy
      simp [HolidayCache.remember, hdates]
    · rw [lookup_remember_of_ne hy, hyears, h.lookup_eq]
      by_cases hmem : y ∈ used
      · simp [hmem, yearDates_append hmem]
      · simp [hmem, hy]
  stored_eq y hy := by
    obtain ⟨hmem, hne⟩ : y ∉ used ∧ y ≠ year := by simpa using hy
    show storedYear? folder c'.disk y = _
    rw [hstored y hne, h.stored_eq y hmem]

/-- The years in use after one more question. -/
def use (used : List Int) (year : Int) : List Int :=
  if year ∈ used then used else used ++ [year]

/-- A year that is not in memory is not in use. -/
theorem Holds.not_mem (h : Holds source folder disk used c) (hnew : c.years.lookup year = none) :
    year ∉ used := by
  intro hyear
  have hlookup := h.lookup_eq year
  rw [hnew, if_pos hyear] at hlookup
  simp at hlookup

/-- **What one question keeps.** The dates of its year are those that the year has from its first use
on, and the cache goes on to hold what it should. -/
theorem Holds.loading (h : Holds source folder disk used c)
    (hload : Loading source folder year c dates c') :
    dates = yearDates source (storedYear? folder disk) (use used year) year ∧
      Holds source folder disk (use used year) c' := by
  cases hload with
  | remembered hfound =>
    have hlookup := h.lookup_eq year
    by_cases hyear : year ∈ used
    · rw [hfound, if_pos hyear] at hlookup
      rw [use, if_pos hyear]
      exact ⟨Option.some.inj hlookup, h⟩
    · rw [hfound, if_neg hyear] at hlookup
      simp at hlookup
  | read hnew hfile =>
    have hyear := h.not_mem hnew
    rw [h.stored_eq year hyear] at hfile
    rw [use, if_neg hyear]
    have hdates := (yearDates_of_stored source (used ++ [year]) hfile).symm
    refine ⟨hdates, h.remember hyear rfl ?_ (fun _ _ => rfl) hdates⟩
    simp [h.asked_eq, fetchedYears, hfile]
  | failed hnew hfile hsource =>
    have hyear := h.not_mem hnew
    rw [h.stored_eq year hyear] at hfile
    rw [h.asked_eq] at hsource
    rw [use, if_neg hyear]
    have hdates := yearDates_concat source hyear hfile
    rw [hsource] at hdates
    refine ⟨hdates.symm, h.remember hyear rfl ?_ (fun _ _ => rfl) hdates.symm⟩
    simp [h.asked_eq, fetchedYears, hfile]
  | fetched hnew hfile hsource =>
    have hyear := h.not_mem hnew
    rw [h.stored_eq year hyear] at hfile
    rw [h.asked_eq] at hsource
    rw [use, if_neg hyear]
    have hdates := yearDates_concat source hyear hfile
    rw [hsource] at hdates
    refine ⟨hdates.symm, h.remember hyear rfl ?_ (fun _ hy => storedYear?_keepIn hy) hdates.symm⟩
    simp [h.asked_eq, fetchedYears, hfile]

/-! ## Runs -/

theorem eraseDups_concat (years : List Int) (year : Int) :
    (years ++ [year]).eraseDups = use years.eraseDups year := by
  rw [List.eraseDups_append, use]
  by_cases h : year ∈ years
  · simp [h, List.removeAll]
  · simp [h, List.removeAll, List.eraseDups_cons]

theorem yearDates_use (h : y ∈ used) :
    yearDates source stored (use used year) y = yearDates source stored used y := by
  rw [use]
  split
  · rfl
  · exact yearDates_append h [year]

/-- **What a run leads to.** Every answer is made from the dates that its year has from its first use
on, and the cache holds the years in use. -/
theorem holds_answers (source : HolidaySource) (folder : Option DiskPath) (disk : Disk)
    (qs : List CacheQuestion) :
    (answers source folder qs { disk }).1 = qs.map (fun q => q.answerFrom
        (yearDates source (storedYear? folder disk) (CacheQuestion.years qs) q.year)) ∧
      Holds source folder disk (CacheQuestion.years qs) (answers source folder qs { disk }).2 := by
  induction qs using List.reverseRecOn with
  | nil => exact ⟨rfl, holds_new source folder disk⟩
  | append_singleton qs q ih =>
    obtain ⟨hanswers, hholds⟩ := ih
    obtain ⟨hdates, hnext⟩ := hholds.loading (loading_holidays source folder q.year _)
    have hyears : CacheQuestion.years (qs ++ [q]) = use (CacheQuestion.years qs) q.year := by
      rw [CacheQuestion.years, List.map_append, List.map_singleton, eraseDups_concat]
      rfl
    rw [answers_concat, answer_eq, hyears]
    refine ⟨?_, hnext⟩
    rw [List.map_append, List.map_singleton, hanswers, hdates]
    refine congrArg (· ++ _) (List.map_congr_left fun p hp => ?_)
    have hmem : p.year ∈ CacheQuestion.years qs :=
      List.mem_eraseDups.2 (List.mem_map_of_mem hp)
    rw [yearDates_use hmem]

end HolidayCache

end OpeningHours
