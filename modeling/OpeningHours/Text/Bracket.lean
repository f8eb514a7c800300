import OpeningHours.Text.Basic

/-!
# Brackets

Statements and lists are cut at separators, but only outside brackets. Four kinds of brackets count
together: whichever kind opens, whichever kind closes. A closing bracket without an opening one is
passed over. `splitTopLevel` is the cut that keeps the pieces with anything in them, and
`leadingParenthetical?` reads the round brackets at the start of a text.

A leading parenthetical is a stretch of the text (`closeParenthesis?_eq_some`), so the text behind
it is shorter (`length_lt_of_leadingParenthetical?`).
-/

namespace OpeningHours.Text

/-- Whether the character opens a bracket. -/
def isOpening (c : Char) : Bool :=
  c == '(' || c == '[' || c == '「' || c == '【'

/-- Whether the character closes a bracket. -/
def isClosing (c : Char) : Bool :=
  c == ')' || c == ']' || c == '」' || c == '】'

/-- How many brackets are open after `c` if `depth` are open before it. -/
def depthAfter (depth : Nat) (c : Char) : Nat :=
  if isOpening c then depth + 1
  else if isClosing c then depth - 1
  else depth

/-- Whether `c` cuts the text where `depth` brackets are open. -/
def cutsAt (isSep : Char → Bool) (depth : Nat) (c : Char) : Bool :=
  depth == 0 && isSep c && !isOpening c && !isClosing c

/-- The pieces between the separators outside brackets, where `depth` brackets are open in front
of the text. -/
def cutTopLevel (isSep : Char → Bool) : Nat → Text → List Text
  | _, [] => [[]]
  | depth, c :: r =>
    if cutsAt isSep depth c then [] :: cutTopLevel isSep depth r
    else extendHead c (cutTopLevel isSep (depthAfter depth c) r)

/-- The pieces between the separators outside brackets that hold more than blanks. -/
def splitTopLevel (isSep : Char → Bool) (t : Text) : List Text :=
  (cutTopLevel isSep 0 t).filter fun piece => !isAllBlank piece

theorem cutTopLevel_ne_nil (isSep : Char → Bool) (depth : Nat) (t : Text) :
    cutTopLevel isSep depth t ≠ [] := by
  cases t with
  | nil => simp [cutTopLevel]
  | cons c r =>
    rw [cutTopLevel]
    split
    · simp
    · exact extendHead_ne_nil c _

/-! ## A parenthetical in front -/

/-- The text up to the round bracket that closes the one in front of the text, and the text after
it. The number counts the round brackets opened since. -/
def closeParenthesis? : Nat → Text → Option (Text × Text)
  | _, [] => none
  | 0, ')' :: r => some ([], r)
  | inner + 1, ')' :: r => (closeParenthesis? inner r).map fun (t, after) => (')' :: t, after)
  | inner, '(' :: r => (closeParenthesis? (inner + 1) r).map fun (t, after) => ('(' :: t, after)
  | inner, c :: r => (closeParenthesis? inner r).map fun (t, after) => (c :: t, after)

/-- The inside of the balanced parenthetical at the start of the text, blanks in front of it aside,
and the text after it. -/
def leadingParenthetical? (t : Text) : Option (Text × Text) :=
  match trimStart t with
  | '(' :: r => closeParenthesis? 0 r
  | _ => none

theorem closeParenthesis?_eq_some {inner : Nat} {t inside after : Text}
    (h : closeParenthesis? inner t = some (inside, after)) : inside ++ ')' :: after = t := by
  fun_induction closeParenthesis? inner t generalizing inside with
  | case1 => simp at h
  | case2 r =>
    obtain ⟨rfl, rfl⟩ : [] = inside ∧ r = after := by simpa using h
    rfl
  | case3 inner r ih =>
    obtain ⟨⟨u, a⟩, hu, he⟩ := Option.map_eq_some_iff.1 h
    obtain ⟨rfl, rfl⟩ : ')' :: u = inside ∧ a = after := by simpa using he
    simp [ih hu]
  | case4 inner r ih =>
    obtain ⟨⟨u, a⟩, hu, he⟩ := Option.map_eq_some_iff.1 h
    obtain ⟨rfl, rfl⟩ : '(' :: u = inside ∧ a = after := by simpa using he
    simp [ih hu]
  | case5 inner c r _ _ _ ih =>
    obtain ⟨⟨u, a⟩, hu, he⟩ := Option.map_eq_some_iff.1 h
    obtain ⟨rfl, rfl⟩ : c :: u = inside ∧ a = after := by simpa using he
    simp [ih hu]

/-- A leading parenthetical leaves a shorter text. -/
theorem length_lt_of_leadingParenthetical? {t inside after : Text}
    (h : leadingParenthetical? t = some (inside, after)) : after.length < t.length := by
  have htrim : (trimStart t).length ≤ t.length := (List.dropWhile_sublist isBlank).length_le
  rw [leadingParenthetical?] at h
  split at h
  · next r hr =>
    have := congrArg List.length (closeParenthesis?_eq_some h)
    rw [hr] at htrim
    simp only [List.length_append, List.length_cons] at this htrim
    omega
  · simp at h

end OpeningHours.Text
