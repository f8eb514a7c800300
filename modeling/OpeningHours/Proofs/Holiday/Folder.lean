import OpeningHours.Proofs.Holiday.Names
import OpeningHours.Proofs.Holiday.Questions

/-!
# A cache with a folder

With a folder a cache looks for the file of a year before it asks the source, and tries to keep what
it gets from the source. The folder may be missing or out of reach, and its files may be missing,
no files at all, unreadable or malformed: whatever stands on the disk, every question is answered
(**`answers_inFolder`**). Nothing is written unless the source has answered, and then nothing but
the file of the year in question, whether or not this succeeds (`Loading.disk_eq_or`).
-/

namespace OpeningHours

namespace HolidayCache

variable {source : HolidaySource} {folder : DiskPath} {year : Int} {dates : List Date}
  {c c' : HolidayCache}

/-- A file gives holidays of its year only. -/
theorem year_of_mem_dates_readYear? {disk : Disk} {names : HolidayNames} {d : Date}
    (h : readYear? disk folder year = some names) (hd : d ∈ names.dates) : d.year = year := by
  obtain ⟨body, -, hbody⟩ := Option.bind_eq_some_iff.1 h
  split at hbody
  · next hread =>
    obtain rfl := Option.some.inj hbody
    exact year_of_mem_dates_readHolidays hread hd
  · simp at hbody

/-- **The disk stays as it is** unless the year is new, is not stored and is given by the source;
then it may change by what is kept of that year. -/
theorem Loading.disk_eq_or (h : Loading source (some folder) year c dates c') :
    c'.disk = c.disk ∨
      c.years.lookup year = none ∧ readYear? c.disk folder year = none ∧
        ∃ names, source c.asked year = some names ∧
          OnlyKeeps folder year names c.disk c'.disk := by
  cases h with
  | remembered => exact .inl rfl
  | read => exact .inl rfl
  | failed => exact .inl rfl
  | @fetched names hnew hdisk hsource =>
    exact .inr ⟨hnew, hdisk, names, hsource, onlyKeeps_keepYear c.disk folder year names⟩

/-- **A cache with a folder answers whatever stands on the disk.** At its first use a year gets the
dates in its file, if they can be read, and the source is not asked; else those that the source
gives, none if it fails. Later answers are made from the same dates, and none depends on what can be
written. A further question leaves the disk as it is, unless its year is new and not stored and the
source gives its holidays: then it changes nothing but the file of that year, the way to it aside. -/
theorem answers_inFolder (source : HolidaySource) (folder : DiskPath) (disk : Disk)
    (qs : List CacheQuestion) (q : CacheQuestion) :
    let stored := readYear? disk folder
    let years := CacheQuestion.years qs
    let run := answers source (some folder) qs { disk }
    let next := (answer source (some folder) q run.2).2
    run.1 = qs.map (fun q => q.answerFrom (yearDates source stored years q.year)) ∧
      run.2.asked = fetchedYears stored years ∧
      (∀ year names, stored year = some names → ∀ d ∈ names.dates, d.year = year) ∧
      (∀ locked, (answers source (some folder) qs { disk := { disk with locked } }).1 = run.1) ∧
      (next.disk = run.2.disk ∨
        q.year ∉ years ∧ stored q.year = none ∧
          ∃ names, source run.2.asked q.year = some names ∧
            OnlyKeeps folder q.year names run.2.disk next.disk) := by
  intro stored years run next
  obtain ⟨hanswers, hholds⟩ := holds_answers source (some folder) disk qs
  refine ⟨hanswers, hholds.asked_eq, ?_, ?_, ?_⟩
  · intro year names h d hd
    exact year_of_mem_dates_readYear? h hd
  · intro locked
    -- What is stored does not depend on what is locked.
    exact (holds_answers source (some folder) { disk with locked } qs).1.trans hanswers.symm
  · have hnext : next = (holidays source (some folder) q.year run.2).2 :=
      congrArg Prod.snd (answer_eq source (some folder) q run.2)
    rw [hnext]
    refine (loading_holidays source (some folder) q.year run.2).disk_eq_or.imp_right ?_
    rintro ⟨hnew, hdisk, hfetched⟩
    have hyear : q.year ∉ years := hholds.not_mem hnew
    have hstored : stored q.year = none := (hholds.stored_eq q.year hyear).symm.trans hdisk
    exact ⟨hyear, hstored, hfetched⟩

end HolidayCache

end OpeningHours
