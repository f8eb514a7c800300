import OpeningHours.Text.Basic

/-!
# JSON values

The values of JSON texts. Members of an object keep their order, repeated keys included. A string
may name half of a surrogate pair in an escape; such a string has no text. A number is an integer if
it is written as one, without a fraction or an exponent; a number written otherwise keeps its
spelling.
-/

namespace OpeningHours.Json

/-- A JSON value. -/
inductive Value where
  | null
  | bool (b : Bool)
  | integer (n : Int)
  /-- A number that is not written as an integer. -/
  | decimal (spelling : Text)
  /-- A string; without a text if it is not made of characters. -/
  | string (text : Option Text)
  | array (elements : List Value)
  | object (members : List (Option Text × Value))

namespace Value

/-- The string of a text. -/
def ofText (t : Text) : Value :=
  .string (some t)

/-- The object with the given members. -/
def ofMembers (members : List (String × Value)) : Value :=
  .object (members.map fun (key, v) => (some key.toList, v))

/-- The text of a string. -/
def text? : Value → Option Text
  | .string t => t
  | _ => none

/-- The integer that the value is. -/
def integer? : Value → Option Int
  | .integer n => some n
  | _ => none

/-- The Boolean that the value is. -/
def bool? : Value → Option Bool
  | .bool b => some b
  | _ => none

/-- The elements of an array. -/
def elements? : Value → Option (List Value)
  | .array vs => some vs
  | _ => none

/-- The members of an object whose keys all have a text. -/
def members? : Value → Option (List (Text × Value))
  | .object ms => ms.mapM fun (key, v) => key.map fun k => (k, v)
  | _ => none

end Value

end OpeningHours.Json
