import OpeningHours.Holiday.OrderedEntries
import OpeningHours.Text.Basic

/-!
# Files and folders

The state of a disk as far as the files of holidays need it: which paths are folders, which are
files with what content, and where nothing can be written. A file need not be readable as text.
Operations that fail leave the disk as it was.
-/

namespace OpeningHours

/-- What stands at a path. -/
inductive DiskEntry where
  | folder
  /-- A file; its content is missing if it cannot be read as text. -/
  | file (content : Option Text)
  deriving DecidableEq, Repr

/-- A path from the root of the disk, name by name. -/
abbrev DiskPath := List Text

/-- The state of a disk. -/
structure Disk where
  entries : List (DiskPath × DiskEntry) := []
  /-- The paths at which nothing can be made or written, for want of rights or of room. -/
  locked : List DiskPath := []
  deriving DecidableEq, Repr

namespace Disk

/-- What stands at a path. The empty path is the root folder. -/
def find? (d : Disk) (path : DiskPath) : Option DiskEntry :=
  if path.isEmpty then some .folder else d.entries.lookup path

/-- Whether the path is a folder. -/
def isFolder (d : Disk) (path : DiskPath) : Bool :=
  d.find? path == some .folder

/-- The text of the file at a path, if there is such a file. -/
def readText? (d : Disk) (path : DiskPath) : Option Text :=
  match d.find? path with
  | some (.file content) => content
  | _ => none

/-- The disk with an entry at a path in place of what stood there. -/
def put (d : Disk) (path : DiskPath) (e : DiskEntry) : Disk :=
  { d with entries := (path, e) :: d.entries.filter fun entry => entry.1 != path }

/-- The disk with nothing at the path. -/
def erase (d : Disk) (path : DiskPath) : Disk :=
  { d with entries := d.entries.filter fun entry => entry.1 != path }

/-- The disk after writing a file into a folder that exists; not over a folder, nor at a locked
path. -/
def writeFile? (d : Disk) (path : DiskPath) (content : Option Text) : Option Disk :=
  if d.isFolder path.dropLast && !d.isFolder path && !d.locked.contains path then
    some (d.put path (.file content))
  else none

/-- The disk with a folder at the path, whose parent exists, unless a file stands there or the path
is locked. -/
def makeFolder? (d : Disk) (path : DiskPath) : Option Disk :=
  match d.find? path with
  | some .folder => some d
  | some (.file _) => none
  | none => if d.locked.contains path then none else some (d.put path .folder)

/-- The disk with folders from the folder `base` down along the names. -/
def makeFoldersFrom? (d : Disk) (base : DiskPath) : List Text → Option Disk
  | [] => some d
  | name :: names =>
    (d.makeFolder? (base ++ [name])).bind fun d => d.makeFoldersFrom? (base ++ [name]) names

/-- The disk with folders along the path, or nothing if a file is in the way. -/
def makeFolders? (d : Disk) (path : DiskPath) : Option Disk :=
  d.makeFoldersFrom? [] path

/-- The disk without the file at a path, if there is one. -/
def removeFile? (d : Disk) (path : DiskPath) : Option Disk :=
  match d.find? path with
  | some (.file _) => some (d.erase path)
  | _ => none

/-- The names in the root folder in order. -/
def names (d : Disk) : List Text :=
  let names := d.entries.filterMap fun (path, _) =>
    match path with
    | [name] => some (name, ())
    | _ => none
  (OrderedEntries.ofList names).map Prod.fst

/-! ## Reading what was written -/

theorem lookup_filter_ne {path q : DiskPath} (h : q ≠ path)
    (entries : List (DiskPath × DiskEntry)) :
    (entries.filter fun entry => entry.1 != path).lookup q = entries.lookup q := by
  induction entries with
  | nil => rfl
  | cons e entries ih =>
    obtain ⟨p, x⟩ := e
    by_cases hp : p = path
    · subst hp
      have hq : (q == p) = false := by simpa using h
      simp [List.lookup_cons, hq, ih]
    · have hp' : (p != path) = true := by simpa using hp
      simp only [List.filter_cons, hp', if_true, List.lookup_cons, ih]

/-- An entry put at a path is found there. -/
theorem find?_put_self (d : Disk) {path : DiskPath} (h : path ≠ []) (e : DiskEntry) :
    (d.put path e).find? path = some e := by
  simp [find?, put, h]

/-- Putting an entry at a path changes nothing elsewhere. -/
theorem find?_put_of_ne (d : Disk) {path q : DiskPath} (h : q ≠ path) (e : DiskEntry) :
    (d.put path e).find? q = d.find? q := by
  have hq : (q == path) = false := by simpa using h
  simp only [find?, put, List.lookup_cons, hq, lookup_filter_ne h]

end Disk

end OpeningHours
