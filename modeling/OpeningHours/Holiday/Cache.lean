import OpeningHours.Holiday.Disk
import OpeningHours.Holiday.Payload

/-!
# Remembering holidays

Holidays are fetched year by year from a source, at most once per year. `HolidayCache` remembers the
years in memory; with a folder it also keeps each fetched year in a file, and looks there before it
asks the source. A failed fetch is remembered as a year without holidays, but in memory only.

A source may answer differently each time; it sees the years asked for before.
-/

namespace OpeningHours

/-- A source of holidays: what it answers for a year after it was asked for the given years. A
missing answer is a failure. -/
abbrev HolidaySource := (asked : List Int) → (year : Int) → Option HolidayNames

/-- What is remembered, with the years asked of the source and the disk. -/
structure HolidayCache where
  /-- The holidays of the years in memory. -/
  years : List (Int × List Date) := []
  /-- The years asked of the source, in order. -/
  asked : List Int := []
  disk : Disk := {}
  deriving DecidableEq, Repr

namespace HolidayCache

/-! ## Files -/

/-- The file of a year in a folder. -/
def yearPath (folder : DiskPath) (year : Int) : DiskPath :=
  folder ++ [Decimal.writeInt year ++ ".json".toList]

/-- The holidays in the file of a year, if it can be read. -/
def readYear? (disk : Disk) (folder : DiskPath) (year : Int) : Option HolidayNames :=
  (disk.readText? (yearPath folder year)).bind fun body =>
    match readHolidays year body with
    | .ok names => some names
    | .error _ => none

/-- The disk after keeping the holidays of a year, as far as this succeeds. The folder is made
first. -/
def keepYear (disk : Disk) (folder : DiskPath) (year : Int) (names : HolidayNames) : Disk :=
  match disk.makeFolders? folder with
  | none => disk
  | some disk => (disk.writeFile? (yearPath folder year) (some (writeHolidays names))).getD disk

/-! ## Loading a year -/

/-- The state after remembering the holidays of a year. -/
def remember (c : HolidayCache) (year : Int) (dates : List Date) : HolidayCache :=
  { c with years := (year, dates) :: c.years }

/-- Ask the source for a year and remember the answer. -/
def fetch (source : HolidaySource) (folder : Option DiskPath) (year : Int) (c : HolidayCache) :
    List Date × HolidayCache :=
  let asked := { c with asked := c.asked ++ [year] }
  match source c.asked year with
  | none => ([], asked.remember year [])
  | some names =>
    let kept :=
      match folder with
      | none => asked
      | some folder => { asked with disk := keepYear asked.disk folder year names }
    (names.dates, kept.remember year names.dates)

/-- The holidays of a year: from memory, else from its file, else from the source. -/
def holidays (source : HolidaySource) (folder : Option DiskPath) (year : Int)
    (c : HolidayCache) : List Date × HolidayCache :=
  match c.years.lookup year with
  | some dates => (dates, c)
  | none =>
    match folder.bind fun folder => readYear? c.disk folder year with
    | some names => (names.dates, c.remember year names.dates)
    | none => fetch source folder year c

/-- Whether the date is a holiday. -/
def isHoliday (source : HolidaySource) (folder : Option DiskPath) (date : Date)
    (c : HolidayCache) : Bool × HolidayCache :=
  let (dates, c) := holidays source folder date.year c
  (dates.contains date, c)

/-- The answer to a query whose questions the cache answers. -/
def run (source : HolidaySource) (folder : Option DiskPath) (q : HolidayQuery α)
    (c : HolidayCache) : α × HolidayCache :=
  HolidayQuery.run (isHoliday source folder) q c

/-- The years in memory in ascending order. -/
def rememberedYears (c : HolidayCache) : List Int :=
  (OrderedEntries.ofList (c.years.map fun (year, _) => (year, ()))).map Prod.fst

/-- A new cache with empty memory on the same disk, whose source has been asked before. -/
def restart (c : HolidayCache) : HolidayCache :=
  { c with years := [] }

end HolidayCache

end OpeningHours
