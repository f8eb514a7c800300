import OpeningHours.Fault
import OpeningHours.Json.Value
import OpeningHours.Numeral.Decimal

/-!
# The holiday service

Where the holidays of a year are fetched from: a template of an address with a place for the year, a
time limit in seconds, and a folder for files that remember the answers. Settings that are not given
have defaults.
-/

namespace OpeningHours

open Json

/-- The settings of the holiday service. -/
structure HolidayService where
  /-- The address, with a placeholder for the year. -/
  endpoint : Text := "https://holidays-jp.github.io/api/v1/\x7byear\x7d/date.json".toList
  /-- The time limit of a request. -/
  timeoutSeconds : Nat := 10
  /-- The folder for files of holidays, if they are to be kept. -/
  folder : Option Text := none
  deriving DecidableEq, Repr

namespace HolidayService

/-- The placeholder for the year. -/
def placeholder : Text :=
  "\x7byear\x7d".toList

/-- Whether the address has a place for the year. -/
def hasPlaceholder (s : HolidayService) : Bool :=
  1 < (Text.splitOn placeholder s.endpoint).length

/-- Settings are valid if the address depends on the year and the time limit is positive. -/
def validate (s : HolidayService) : Except Fault Unit :=
  if !s.hasPlaceholder then .error (.endpointWithoutYear s.endpoint)
  else if s.timeoutSeconds = 0 then .error .zeroTimeout
  else .ok ()

/-- The address for a year. -/
def address (s : HolidayService) (year : Int) : Text :=
  Text.replace placeholder (Decimal.writeInt year) s.endpoint

/-! ## Settings as JSON -/

/-- The setting of an endpoint. -/
def readEndpoint? (v : Value) : Option Text :=
  v.text?

/-- The setting of a time limit, an integer of 64 bits. -/
def readTimeout? (v : Value) : Option Nat :=
  match v with
  | .integer n => if 0 ≤ n ∧ n.toNat < UInt64.size then some n.toNat else none
  | _ => none

/-- The setting of a folder, which may be null. -/
def readFolder? (v : Value) : Option (Option Text) :=
  match v with
  | .null => some none
  | .string (some t) => some (some t)
  | _ => none

/-- The value of the member with the key, which may be missing but not repeated. -/
def member? (key : String) (members : List (Text × Value)) : Option (Option Value) :=
  match members.filter fun m => m.1 == key.toList with
  | [] => some none
  | [(_, v)] => some (some v)
  | _ => none

/-- What `read` makes of the value; the default where there is none. -/
def orDefault (read : Value → Option α) (default : α) : Option Value → Option α
  | none => some default
  | some v => read v

/-- The settings with the given values. -/
def ofValues? (endpoint timeout folder : Option Value) : Option HolidayService := do
  let defaults : HolidayService := {}
  let endpoint ← orDefault readEndpoint? defaults.endpoint endpoint
  let timeoutSeconds ← orDefault readTimeout? defaults.timeoutSeconds timeout
  let folder ← orDefault readFolder? defaults.folder folder
  return { endpoint, timeoutSeconds, folder }

/-- The settings of an object by their keys, other members aside, or those of a list by their
places. -/
def ofJson? (v : Value) : Option HolidayService :=
  match v with
  | .array vs => if vs.length ≤ 3 then ofValues? vs[0]? vs[1]? vs[2]? else none
  | .object _ => do
    let ms ← v.members?
    let endpoint ← member? "endpoint" ms
    let timeout ← member? "timeout_secs" ms
    let folder ← member? "cache_dir" ms
    ofValues? endpoint timeout folder
  | _ => none

/-- The settings as an object. -/
def toJson (s : HolidayService) : Value :=
  .ofMembers [("endpoint", .ofText s.endpoint), ("timeout_secs", .integer s.timeoutSeconds),
    ("cache_dir", match s.folder with | none => .null | some t => .ofText t)]

end HolidayService

end OpeningHours
