import OpeningHours.Numeral.Decimal

/-!
# Kanji numerals

Days of the month are written with ASCII digits (`15`), with kanji digits in places (`一五`) or with
units (`十五`). `Kanji.read?` reads all three forms into a 32-bit number.

A kanji numeral is read from the left. A group of digits waits for the unit after it; a unit counts
once when no group waits. Digits form a group of several only before the first unit, so `十二三` is
no numeral. A group of digits that does not fit into 32 bits is refused.
-/

namespace OpeningHours.Kanji

/-- The value of a kanji digit. -/
def digit? (c : Char) : Option UInt32 :=
  match c with
  | '〇' => some 0
  | '零' => some 0
  | '一' => some 1
  | '二' => some 2
  | '三' => some 3
  | '四' => some 4
  | '五' => some 5
  | '六' => some 6
  | '七' => some 7
  | '八' => some 8
  | '九' => some 9
  | _ => none

/-- The value of a kanji unit. -/
def unit? (c : Char) : Option UInt32 :=
  match c with
  | '百' => some 100
  | '十' => some 10
  | _ => none

/-- The number, if it fits into 32 bits. -/
def word? (n : Nat) : Option UInt32 :=
  if n < UInt32.size then some (UInt32.ofNat n) else none

/-- How far a kanji numeral has been read. -/
structure Progress where
  /-- The sum of the units read, in 32-bit arithmetic. -/
  total : UInt32 := 0
  /-- The digits that wait for a unit. -/
  waiting : Option UInt32 := none
  /-- Whether a unit has been read. -/
  hasUnit : Bool := false
  deriving DecidableEq, Repr

namespace Progress

/-- Read a unit. -/
def addUnit (s : Progress) (unit : UInt32) : Progress :=
  ⟨s.total + s.waiting.getD 1 * unit, none, true⟩

/-- Read a digit. -/
def addDigit? (s : Progress) (digit : UInt32) : Option Progress :=
  match s.waiting with
  | none => some { s with waiting := some digit }
  | some group =>
    if s.hasUnit then none
    else (word? (10 * group.toNat + digit.toNat)).map fun n => { s with waiting := some n }

/-- Read one character. -/
def add? (s : Progress) (c : Char) : Option Progress :=
  match unit? c, digit? c with
  | some unit, _ => some (s.addUnit unit)
  | none, some digit => s.addDigit? digit
  | none, none => none

/-- The number that has been read. -/
def result (s : Progress) : UInt32 :=
  s.total + s.waiting.getD 0

end Progress

/-- Read a numeral of kanji digits and units. -/
def readKanji? (t : Text) : Option UInt32 :=
  (t.foldlM Progress.add? {}).map Progress.result

/-- Read a numeral of ASCII digits alone, or of kanji digits and units, blanks at the ends aside. -/
def read? (t : Text) : Option UInt32 :=
  let t := Text.trim t
  if t.isEmpty then none
  else if t.all Char.isDigit then word? (Decimal.value t)
  else readKanji? t

end OpeningHours.Kanji
