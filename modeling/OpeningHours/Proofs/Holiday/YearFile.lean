import Mathlib.Data.List.Basic
import OpeningHours.Holiday.Cache
import OpeningHours.Proofs.Numeral.Decimal

/-!
# The file of a year

Keeping the holidays of a year makes the folder, as far as it is missing, and writes the file of
that year. Nothing else on the disk changes, whether this succeeds or fails halfway
(**`onlyKeeps_keepYear`**). So the files of other years read as before (`readYear?_of_onlyKeeps`),
and where the year can be kept its file holds what was written (`readText?_keepYear`).
-/

namespace OpeningHours

namespace Disk

variable {d e f : Disk} {folder path : DiskPath}

/-- The second disk is the first one, perhaps with new folders on the way to `folder`. -/
def Grows (folder : DiskPath) (d e : Disk) : Prop :=
  ∀ path, e.find? path = d.find? path ∨
    (path <+: folder ∧ d.find? path = none ∧ e.find? path = some .folder)

theorem Grows.refl (folder : DiskPath) (d : Disk) : Grows folder d d := fun _ => .inl rfl

theorem Grows.trans (hde : Grows folder d e) (hef : Grows folder e f) : Grows folder d f := by
  intro path
  rcases hef path with hsame | ⟨hpath, hnone, hfolder⟩
  · rw [hsame]
    exact hde path
  · refine .inr ⟨hpath, ?_, hfolder⟩
    rcases hde path with hsame | ⟨-, -, hmade⟩
    · rwa [← hsame]
    · rw [hmade] at hnone
      exact absurd hnone (by simp)

theorem grows_makeFolder? (hpath : path <+: folder) (h : d.makeFolder? path = some e) :
    Grows folder d e := by
  rw [makeFolder?] at h
  split at h
  · obtain rfl := Option.some.inj h
    exact .refl folder d
  · simp at h
  · next hnone =>
    split at h
    · simp at h
    · obtain rfl := Option.some.inj h
      have hne : path ≠ [] := by
        rintro rfl
        simp [find?] at hnone
      intro q
      by_cases hq : q = path
      · subst hq
        exact .inr ⟨hpath, hnone, find?_put_self d hne .folder⟩
      · exact .inl (find?_put_of_ne d hq .folder)

theorem grows_makeFoldersFrom? {base : DiskPath} {names : List Text}
    (h : d.makeFoldersFrom? base names = some e) : Grows (base ++ names) d e := by
  induction names generalizing d base with
  | nil =>
    obtain rfl := Option.some.inj h
    exact .refl _ d
  | cons name names ih =>
    obtain ⟨c, hc, he⟩ := Option.bind_eq_some_iff.1 h
    have hrest := ih he
    rw [List.append_assoc, List.singleton_append] at hrest
    have hfirst : base ++ [name] <+: base ++ name :: names := ⟨names, by simp⟩
    exact (grows_makeFolder? hfirst hc).trans hrest

theorem grows_makeFolders? (h : d.makeFolders? folder = some e) : Grows folder d e :=
  grows_makeFoldersFrom? h

end Disk

namespace HolidayCache

variable {d e : Disk} {folder : DiskPath} {year y : Int} {names : HolidayNames}

/-! ## Paths -/

theorem yearPath_ne_nil (folder : DiskPath) (year : Int) : yearPath folder year ≠ [] := by
  simp [yearPath]

/-- Every year has a file of its own. -/
theorem yearPath_injective (h : yearPath folder year = yearPath folder y) : year = y := by
  have hname := (List.append_inj' h rfl).2
  rw [List.singleton_inj] at hname
  exact Decimal.writeInt_injective (List.append_cancel_right hname)

/-- The file is not on the way to its folder. -/
theorem not_prefix_yearPath (folder : DiskPath) (year : Int) : ¬ yearPath folder year <+: folder := by
  intro h
  have hlen := h.length_le
  rw [yearPath, List.length_append, List.length_singleton] at hlen
  omega

/-! ## Keeping a year -/

/-- The second disk is the first one, perhaps with the holidays written into the file of the year
and with new folders on the way to it. -/
def OnlyKeeps (folder : DiskPath) (year : Int) (names : HolidayNames) (d e : Disk) : Prop :=
  ∀ path, e.find? path = d.find? path ∨
    (path <+: folder ∧ d.find? path = none ∧ e.find? path = some .folder) ∨
    (path = yearPath folder year ∧ e.find? path = some (.file (some (writeHolidays names))))

/-- Whether the holidays of a year can be kept. -/
def canKeep (d : Disk) (folder : DiskPath) (year : Int) (names : HolidayNames) : Bool :=
  ((d.makeFolders? folder).bind fun d =>
    d.writeFile? (yearPath folder year) (some (writeHolidays names))).isSome

/-- **Keeping a year changes nothing but its file**, the way to it aside. -/
theorem onlyKeeps_keepYear (d : Disk) (folder : DiskPath) (year : Int) (names : HolidayNames) :
    OnlyKeeps folder year names d (keepYear d folder year names) := by
  intro path
  rw [keepYear]
  split
  · exact .inl rfl
  · next c hc =>
    have hgrows := Disk.grows_makeFolders? hc path
    rw [Disk.writeFile?]
    split
    · by_cases hpath : path = yearPath folder year
      · subst hpath
        exact .inr (.inr ⟨rfl, Disk.find?_put_self c (yearPath_ne_nil folder year) _⟩)
      · rw [Option.getD_some, Disk.find?_put_of_ne c hpath]
        exact hgrows.imp_right .inl
    · exact hgrows.imp_right .inl

/-- The file of a year that could be kept holds what was written. -/
theorem readText?_keepYear (h : canKeep d folder year names = true) :
    (keepYear d folder year names).readText? (yearPath folder year) =
      some (writeHolidays names) := by
  obtain ⟨e, he⟩ := Option.isSome_iff_exists.1 h
  obtain ⟨c, hc, hwrite⟩ := Option.bind_eq_some_iff.1 he
  rw [keepYear, hc]
  simp only [hwrite, Option.getD_some]
  rw [Disk.writeFile?] at hwrite
  split at hwrite
  · obtain rfl := Option.some.inj hwrite
    rw [Disk.readText?, Disk.find?_put_self c (yearPath_ne_nil folder year)]
  · simp at hwrite

theorem readText?_of_onlyKeeps (h : OnlyKeeps folder year names d e) (hy : y ≠ year) :
    e.readText? (yearPath folder y) = d.readText? (yearPath folder y) := by
  rw [Disk.readText?, Disk.readText?]
  rcases h (yearPath folder y) with hsame | ⟨hpath, -⟩ | ⟨hpath, -⟩
  · rw [hsame]
  · exact absurd hpath (not_prefix_yearPath folder y)
  · exact absurd (yearPath_injective hpath) hy

/-- The other years are read as before. -/
theorem readYear?_of_onlyKeeps (h : OnlyKeeps folder year names d e) (hy : y ≠ year) :
    readYear? e folder y = readYear? d folder y := by
  rw [readYear?, readYear?, readText?_of_onlyKeeps h hy]

end HolidayCache

end OpeningHours
