import OpeningHours.Text.Basic

/-!
# The normal form of a text

Facility texts mix full-width and half-width characters and space themselves freely. Everything
downstream reads the normal form made here: full-width ASCII is half-width, the range glyphs are
`~`, a run of blanks is one space (or one line break when it holds one), no space stands beside a
comma or a slash, and the ends are trimmed.

The steps are `halfWidth` on characters, then `collapse`, `tighten` and a trim.
-/

namespace OpeningHours.Text

/-! ## Characters -/

/-- The half-width form of a character. The wave dash and the full-width tilde are both the range
glyph `~`, and the ideographic space is a space. -/
def halfWidth (c : Char) : Char :=
  if c = '\u301C' ∨ c = '\uFF5E' then '~'
  else if c = '\u3000' then ' '
  else if 0xFF01 ≤ c.toNat ∧ c.toNat ≤ 0xFF5D then Char.ofNat (c.toNat - 0xFEE0)
  else c

/-- Whether the character separates the members of a list. -/
def isListMark (c : Char) : Bool :=
  c == ',' || c == '/'

/-! ## Runs of blanks -/

/-- What a run of blanks becomes when the blank `c` is added to it: a line break once the run holds
one, a space before that. -/
def joinGap (gap : Option Char) (c : Char) : Char :=
  if c = '\n' ∨ gap = some '\n' then '\n' else ' '

/-- The text with every inner run of blanks made one character and no blanks at its end. The first
argument is what the run of blanks just read has become. -/
def collapse : Option Char → Text → Text
  | _, [] => []
  | gap, c :: r =>
    if isBlank c then collapse (some (joinGap gap c)) r
    else gap.toList ++ c :: collapse none r

/-- The text without the spaces beside list marks. The first argument is the character in front of
the text. -/
def tighten : Option Char → Text → Text
  | _, [] => []
  | before, c :: r =>
    if c = ' ' ∧ (before.any isListMark ∨ r.head?.any isListMark) then tighten (some c) r
    else c :: tighten (some c) r

/-- Whether the character can be trimmed off a tightened text. -/
def isGap (c : Char) : Bool :=
  c == ' ' || c == '\n'

/-! ## The normal form -/

/-- The normal form of a text. -/
def normalize (t : Text) : Text :=
  trimBy isGap (tighten none (collapse none (t.map halfWidth)))

@[simp] theorem normalize_nil : normalize [] = [] := rfl

/-- Characters in front of the ideographic ones are their own half-width forms. -/
theorem halfWidth_of_lt {c : Char} (h : c.toNat < 0x3000) : halfWidth c = c := by
  have h₁ : c ≠ '\u301C' := by rintro rfl; exact absurd h (by decide)
  have h₂ : c ≠ '\uFF5E' := by rintro rfl; exact absurd h (by decide)
  have h₃ : c ≠ '\u3000' := by rintro rfl; exact absurd h (by decide)
  have h₄ : ¬ (0xFF01 ≤ c.toNat ∧ c.toNat ≤ 0xFF5D) := by omega
  simp [halfWidth, h₁, h₂, h₃, h₄]

end OpeningHours.Text
