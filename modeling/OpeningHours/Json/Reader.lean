import OpeningHours.Json.Value
import OpeningHours.Numeral.Decimal

/-!
# Reading JSON

A strict reader of JSON texts: one value with blanks around it and nothing else. There are no
comments, no trailing commas and no control characters in strings, and numbers have no leading
zeros.

Strings are read in two steps. The first yields the code units as they are written, the second joins
surrogate pairs; a string with half a pair has no text.
-/

namespace OpeningHours.Json

/-- Whether the character may stand between the tokens of a JSON text. -/
def isJsonBlank (c : Char) : Bool :=
  c == ' ' || c == '\t' || c == '\n' || c == '\r'

/-- The text without the blanks in front of it. -/
def skipBlanks (t : Text) : Text :=
  t.dropWhile isJsonBlank

/-! ## Strings -/

/-- The value of a hexadecimal digit. -/
def hexDigit? (c : Char) : Option Nat :=
  if c.isDigit then some (c.toNat - '0'.toNat)
  else if 'a' ≤ c ∧ c ≤ 'f' then some (c.toNat - 'a'.toNat + 10)
  else if 'A' ≤ c ∧ c ≤ 'F' then some (c.toNat - 'A'.toNat + 10)
  else none

/-- The code unit of four hexadecimal digits. -/
def hexUnit? (a b c d : Char) : Option Nat := do
  let a ← hexDigit? a
  let b ← hexDigit? b
  let c ← hexDigit? c
  let d ← hexDigit? d
  return ((a * 16 + b) * 16 + c) * 16 + d

/-- The character of a short escape. -/
def shortEscape? (c : Char) : Option Nat :=
  match c with
  | '"' => some 0x22
  | '\\' => some 0x5C
  | '/' => some 0x2F
  | 'b' => some 0x08
  | 'f' => some 0x0C
  | 'n' => some 0x0A
  | 'r' => some 0x0D
  | 't' => some 0x09
  | _ => none

/-- The code units of a string after its opening quote, and the text after its closing one. -/
def readUnits? : Text → Option (List Nat × Text)
  | [] => none
  | '"' :: r => some ([], r)
  | '\\' :: 'u' :: a :: b :: c :: d :: r =>
    match hexUnit? a b c d with
    | none => none
    | some unit => (readUnits? r).map fun (units, rest) => (unit :: units, rest)
  | '\\' :: e :: r =>
    match shortEscape? e with
    | none => none
    | some unit => (readUnits? r).map fun (units, rest) => (unit :: units, rest)
  | c :: r =>
    if c.toNat < 0x20 then none
    else (readUnits? r).map fun (units, rest) => (c.toNat :: units, rest)

/-- Whether the unit is the first half of a surrogate pair. -/
def isHighHalf (n : Nat) : Bool :=
  0xD800 ≤ n && n ≤ 0xDBFF

/-- Whether the unit is the second half of a surrogate pair. -/
def isLowHalf (n : Nat) : Bool :=
  0xDC00 ≤ n && n ≤ 0xDFFF

/-- The characters that the code units make, with surrogate pairs joined. The first argument is the
first half of a pair that waits for its second. -/
def joinUnits? : Option Nat → List Nat → Option Text
  | none, [] => some []
  | some _, [] => none
  | some high, n :: r =>
    if isLowHalf n then
      (joinUnits? none r).map (Char.ofNat (0x10000 + (high - 0xD800) * 0x400 + (n - 0xDC00)) :: ·)
    else none
  | none, n :: r =>
    if isHighHalf n then joinUnits? (some n) r
    else if isLowHalf n then none
    else (joinUnits? none r).map (Char.ofNat n :: ·)

/-- The string after its opening quote, and the text after its closing one. -/
def readString? (t : Text) : Option (Option Text × Text) :=
  (readUnits? t).map fun (units, rest) => (joinUnits? none units, rest)

/-! ## Numbers -/

/-- The digits at the start of the text and the text after them. -/
def spanDigits (t : Text) : Text × Text :=
  t.span Char.isDigit

/-- The whole part of a number: digits without a leading zero, or zero. -/
def readWhole? (t : Text) : Option (Text × Text) :=
  match spanDigits t with
  | ([], _) => none
  | ('0' :: _ :: _, _) => none
  | (digits, rest) => some (digits, rest)

/-- The fraction of a number with its point; empty if there is none. -/
def readFraction? (t : Text) : Option (Text × Text) :=
  match t with
  | '.' :: r =>
    match spanDigits r with
    | ([], _) => none
    | (digits, rest) => some ('.' :: digits, rest)
  | _ => some ([], t)

/-- The sign of an exponent, if there is one. -/
def readSign (t : Text) : Text × Text :=
  match t with
  | '+' :: r => (['+'], r)
  | '-' :: r => (['-'], r)
  | _ => ([], t)

/-- The exponent of a number with its letter; empty if there is none. -/
def readExponent? (t : Text) : Option (Text × Text) :=
  match t with
  | c :: r =>
    if c = 'e' ∨ c = 'E' then
      let (sign, r) := readSign r
      match spanDigits r with
      | ([], _) => none
      | (digits, rest) => some (c :: sign ++ digits, rest)
    else some ([], t)
  | [] => some ([], t)

/-- The number that a sign, a whole part and the parts behind it write. Minus zero is no integer. -/
def numberOf (negative : Bool) (whole behind : Text) : Value :=
  let spelling := (if negative then ['-'] else []) ++ whole ++ behind
  if behind.isEmpty then
    let n := Decimal.value whole
    if negative then (if n = 0 then .decimal spelling else .integer (-n)) else .integer n
  else .decimal spelling

/-- The number at the start of the text and the text after it. -/
def readNumber? (t : Text) : Option (Value × Text) := do
  let (negative, t) :=
    match t with
    | '-' :: r => (true, r)
    | _ => (false, t)
  let (whole, t) ← readWhole? t
  let (fraction, t) ← readFraction? t
  let (exponent, t) ← readExponent? t
  return (numberOf negative whole (fraction ++ exponent), t)

/-! ## Values -/

/-- The text after the word, if the text starts with it. -/
def afterWord? (w : String) (t : Text) : Option Text :=
  if w.toList.isPrefixOf t then some (t.drop w.length) else none

/-- The text after a colon with blanks around it. -/
def afterColon? (t : Text) : Option Text :=
  match skipBlanks t with
  | ':' :: r => some (skipBlanks r)
  | _ => none

mutual

/-- The value at the start of the text and the text after it. The number bounds the depth of the
recursion; twice the length of the text is enough. -/
def readValue? : Nat → Text → Option (Value × Text)
  | 0, _ => none
  | n + 1, t =>
    match t with
    | '"' :: r => (readString? r).map fun (s, rest) => (.string s, rest)
    | '[' :: r =>
      match skipBlanks r with
      | ']' :: rest => some (.array [], rest)
      | r => (readElements? n r).map fun (vs, rest) => (.array vs, rest)
    | '\x7b' :: r =>
      match skipBlanks r with
      | '\x7d' :: rest => some (.object [], rest)
      | r => (readMembers? n r).map fun (ms, rest) => (.object ms, rest)
    | 'n' :: _ => (afterWord? "null" t).map fun rest => (.null, rest)
    | 't' :: _ => (afterWord? "true" t).map fun rest => (.bool true, rest)
    | 'f' :: _ => (afterWord? "false" t).map fun rest => (.bool false, rest)
    | _ => readNumber? t

/-- The elements of an array after its bracket or a comma, and the text after the array. -/
def readElements? : Nat → Text → Option (List Value × Text)
  | 0, _ => none
  | n + 1, t =>
    match readValue? n t with
    | none => none
    | some (v, t) =>
      match skipBlanks t with
      | ']' :: rest => some ([v], rest)
      | ',' :: r => (readElements? n (skipBlanks r)).map fun (vs, rest) => (v :: vs, rest)
      | _ => none

/-- The members of an object after its brace or a comma, and the text after the object. -/
def readMembers? : Nat → Text → Option (List (Option Text × Value) × Text)
  | 0, _ => none
  | n + 1, t =>
    match t with
    | '"' :: r =>
      match readString? r with
      | none => none
      | some (key, t) =>
        match afterColon? t with
        | none => none
        | some t =>
          match readValue? n t with
          | none => none
          | some (v, t) =>
            match skipBlanks t with
            | '\x7d' :: rest => some ([(key, v)], rest)
            | ',' :: r =>
              (readMembers? n (skipBlanks r)).map fun (ms, rest) => ((key, v) :: ms, rest)
            | _ => none
    | _ => none

end

/-- The value that the whole text writes. -/
def read? (t : Text) : Option Value :=
  match readValue? (2 * t.length + 2) (skipBlanks t) with
  | some (v, rest) => if (skipBlanks rest).isEmpty then some v else none
  | none => none

end OpeningHours.Json
