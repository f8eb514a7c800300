import OpeningHours.Json.Value
import OpeningHours.Numeral.Decimal

/-!
# Writing JSON

A string is quoted with the short escapes where JSON has them; the other control characters are
written as four hexadecimal digits, and everything else stands for itself. `Value.compact` writes a
value without blanks. `prettyStrings` writes an object of strings with one member to a line.
-/

namespace OpeningHours.Json

/-! ## Strings -/

/-- A character inside a quoted string. -/
def escape (c : Char) : Text :=
  match c with
  | '"' => ['\\', '"']
  | '\\' => ['\\', '\\']
  | '\n' => ['\\', 'n']
  | '\r' => ['\\', 'r']
  | '\t' => ['\\', 't']
  | '\x08' => ['\\', 'b']
  | '\x0c' => ['\\', 'f']
  | c =>
    if c.toNat < 0x20 then
      ['\\', 'u', '0', '0', (c.toNat / 16).digitChar, (c.toNat % 16).digitChar]
    else [c]

/-- The text as a quoted string. -/
def quote (t : Text) : Text :=
  '"' :: t.flatMap escape ++ ['"']

/-! ## Values -/

mutual

/-- The value without blanks. A string without a text is written empty. -/
def Value.compact : Value → Text
  | .null => "null".toList
  | .bool true => "true".toList
  | .bool false => "false".toList
  | .integer n => Decimal.writeInt n
  | .decimal spelling => spelling
  | .string t => quote (t.getD [])
  | .array vs => '[' :: compactElements vs ++ [']']
  | .object ms => '\x7b' :: compactMembers ms ++ ['\x7d']

/-- The elements of an array with commas between them. -/
def compactElements : List Value → Text
  | [] => []
  | [v] => v.compact
  | v :: w :: vs => v.compact ++ ',' :: compactElements (w :: vs)

/-- The members of an object with commas between them. -/
def compactMembers : List (Option Text × Value) → Text
  | [] => []
  | [(key, v)] => quote (key.getD []) ++ ':' :: v.compact
  | (key, v) :: m :: ms => quote (key.getD []) ++ ':' :: v.compact ++ ',' :: compactMembers (m :: ms)

end

/-! ## Objects of strings, one member to a line -/

/-- A member on a line of its own, indented by two spaces. -/
def prettyMember (member : Text × Text) : Text :=
  "\n  ".toList ++ quote member.1 ++ ": ".toList ++ quote member.2

/-- The object with the given members, in their order, one to a line. -/
def prettyStrings (members : List (Text × Text)) : Text :=
  match members with
  | [] => ['\x7b', '\x7d']
  | _ => '\x7b' :: [','].intercalate (members.map prettyMember) ++ ['\n', '\x7d']

end OpeningHours.Json
