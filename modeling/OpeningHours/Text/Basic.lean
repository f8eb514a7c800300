/-!
# Texts, blanks and cutting

A text is the list of its characters. This file holds the operations on texts that know nothing of
facilities: which characters are blank, trimming, cutting at single characters, splitting at a
word, replacing a word and collapsing runs of blanks.

The main statements: cutting and splitting lose nothing (`intercalate_cut`,
`intercalate_splitOn`), and a trimmed text has no trimmed character at either end.
-/

namespace OpeningHours

/-- A text is the list of its characters. -/
abbrev Text := List Char

namespace Text

/-! ## Blank characters -/

/-- The characters with the Unicode property `White_Space`. -/
def isBlank (c : Char) : Bool :=
  let n := c.toNat
  (0x09 ≤ n && n ≤ 0x0D) || n == 0x20 || n == 0x85 || n == 0xA0 || n == 0x1680 ||
    (0x2000 ≤ n && n ≤ 0x200A) || n == 0x2028 || n == 0x2029 || n == 0x202F || n == 0x205F ||
    n == 0x3000

theorem not_isBlank_of_isDigit {c : Char} (hc : c.isDigit = true) : isBlank c = false := by
  simp only [Char.isDigit, Bool.and_eq_true, decide_eq_true_eq, UInt32.le_iff_toNat_le] at hc
  have hn : 0x30 ≤ c.toNat ∧ c.toNat ≤ 0x39 := hc
  simp only [isBlank, Bool.or_eq_false_iff, Bool.and_eq_false_iff, decide_eq_false_iff_not,
    beq_eq_false_iff_ne]
  omega

/-- Whether the text holds nothing but blanks. -/
def isAllBlank (t : Text) : Bool :=
  t.all isBlank

/-! ## The last character -/

/-- The character in front of what follows a text, where `before` is the one in front of it. -/
theorem getLast?_cons_or (c : Char) (t : Text) (before : Option Char) :
    (List.getLast? (c :: t)).or before = t.getLast?.or (some c) := by
  rw [List.getLast?_cons]
  cases t.getLast? <;> rfl

/-! ## Trimming -/

/-- The text without the characters of class `p` at its end. -/
def trimEndBy (p : Char → Bool) (t : Text) : Text :=
  (t.reverse.dropWhile p).reverse

/-- The text without the characters of class `p` at both ends. -/
def trimBy (p : Char → Bool) (t : Text) : Text :=
  trimEndBy p (t.dropWhile p)

/-- The text without blanks at its start. -/
def trimStart (t : Text) : Text :=
  t.dropWhile isBlank

/-- The text without blanks at both ends. -/
def trim (t : Text) : Text :=
  trimBy isBlank t

/-- Trimming the end takes characters away from the end only. -/
theorem trimEndBy_append (p : Char → Bool) (t : Text) :
    trimEndBy p t ++ (t.reverse.takeWhile p).reverse = t := by
  rw [trimEndBy, ← List.reverse_append, List.takeWhile_append_dropWhile, List.reverse_reverse]

/-- The last character of a text trimmed at its end is not of the class. -/
theorem not_of_getLast?_trimEndBy {p : Char → Bool} {t : Text} {c : Char}
    (h : (trimEndBy p t).getLast? = some c) : p c = false := by
  rw [trimEndBy, List.getLast?_reverse] at h
  have := List.head?_dropWhile_not p t.reverse
  rw [h] at this
  simpa using this

/-- Nothing is trimmed off a text without blanks. -/
theorem trim_of_not_isBlank {t : Text} (ht : ∀ c ∈ t, isBlank c = false) : trim t = t := by
  have hkeep {t : Text} (ht : ∀ c ∈ t, isBlank c = false) : t.dropWhile isBlank = t := by
    cases t with
    | nil => rfl
    | cons c t => exact List.dropWhile_cons_of_neg (by simp [ht c List.mem_cons_self])
  rw [trim, trimBy, hkeep ht, trimEndBy, hkeep fun c hc => ht c (List.mem_reverse.1 hc),
    List.reverse_reverse]

/-! ## Cutting at characters -/

/-- Put a character in front of the first piece. -/
def extendHead (c : Char) : List Text → List Text
  | [] => [[c]]
  | p :: ps => (c :: p) :: ps

/-- The pieces between the characters of class `isSep`, empty ones included. -/
def cut (isSep : Char → Bool) : Text → List Text
  | [] => [[]]
  | c :: r => if isSep c then [] :: cut isSep r else extendHead c (cut isSep r)

theorem extendHead_ne_nil (c : Char) (ps : List Text) : extendHead c ps ≠ [] := by
  cases ps <;> simp [extendHead]

theorem cut_ne_nil (isSep : Char → Bool) (t : Text) : cut isSep t ≠ [] := by
  cases t with
  | nil => simp [cut]
  | cons c r =>
    rw [cut]
    split
    · simp
    · exact extendHead_ne_nil c _

theorem intercalate_extendHead (w : Text) (c : Char) {ps : List Text} (h : ps ≠ []) :
    w.intercalate (extendHead c ps) = c :: w.intercalate ps := by
  match ps, h with
  | [_], _ => simp [extendHead, List.intercalate]
  | _ :: _ :: _, _ => simp [extendHead, List.intercalate]

/-- Cutting at one character loses nothing: putting it back gives the text. -/
theorem intercalate_cut (s : Char) (t : Text) : [s].intercalate (cut (· == s) t) = t := by
  induction t with
  | nil => simp [cut, List.intercalate]
  | cons c r ih =>
    rw [cut]
    split
    · next h =>
      obtain rfl : c = s := by simpa using h
      obtain ⟨p, ps, hp⟩ := List.exists_cons_of_ne_nil (cut_ne_nil (· == c) r)
      rw [hp] at ih ⊢
      simpa [List.intercalate] using ih
    · rw [intercalate_extendHead _ _ (cut_ne_nil _ _), ih]

/-- The words of a text: its longest pieces without a blank. -/
def words (t : Text) : List Text :=
  (cut isBlank t).filter (· ≠ [])

/-- The words of a text with single spaces between them. -/
def collapseBlanks (t : Text) : Text :=
  [' '].intercalate (words t)

/-! ## Splitting at a word -/

/-- The splitter of `splitOn`; the number counts the characters of the last found word that are
still to be passed over. -/
def splitFrom (w : Text) : Nat → Text → List Text
  | _, [] => [[]]
  | k + 1, _ :: r => splitFrom w k r
  | 0, c :: r =>
    if w ≠ [] ∧ w.isPrefixOf (c :: r) then
      [] :: splitFrom w (w.length - 1) r
    else
      extendHead c (splitFrom w 0 r)

/-- The pieces between the occurrences of the word `w`, read from left to right without overlap. An
empty word occurs nowhere. -/
def splitOn (w t : Text) : List Text :=
  splitFrom w 0 t

/-- The text with every occurrence of `w` replaced by `new`. -/
def replace (w new t : Text) : Text :=
  new.intercalate (splitOn w t)

/-- The text without the occurrences of `w`. -/
def remove (w t : Text) : Text :=
  (splitOn w t).flatten

theorem splitFrom_ne_nil (w : Text) (k : Nat) (t : Text) : splitFrom w k t ≠ [] := by
  induction t generalizing k with
  | nil => simp [splitFrom]
  | cons c r ih =>
    cases k with
    | succ k => simpa [splitFrom] using ih k
    | zero =>
      rw [splitFrom]
      split
      · simp
      · exact extendHead_ne_nil c _

theorem splitFrom_drop (w : Text) (k : Nat) (t : Text) :
    splitFrom w k t = splitFrom w 0 (t.drop k) := by
  induction t generalizing k with
  | nil => simp [splitFrom]
  | cons c r ih =>
    cases k with
    | succ k => simpa [splitFrom] using ih k
    | zero => simp

/-- Splitting loses nothing: putting the word back between the pieces gives the text. -/
theorem intercalate_splitOn (w t : Text) : w.intercalate (splitOn w t) = t := by
  induction hn : t.length using Nat.strongRecOn generalizing t with
  | ind n ih =>
    subst hn
    cases t with
    | nil => simp [splitOn, splitFrom, List.intercalate]
    | cons c r =>
      rw [splitOn, splitFrom]
      split
      · next h =>
        obtain ⟨hw, hpre⟩ := h
        obtain ⟨s, hs⟩ := List.isPrefixOf_iff_prefix.1 hpre
        obtain ⟨d, v, rfl⟩ := List.exists_cons_of_ne_nil hw
        obtain ⟨rfl, rfl⟩ : d = c ∧ v ++ s = r := by simpa using hs
        have hdrop : splitFrom (d :: v) ((d :: v).length - 1) (v ++ s) = splitOn (d :: v) s := by
          rw [splitFrom_drop]; simp [splitOn]
        rw [hdrop]
        obtain ⟨p, ps, hp⟩ := List.exists_cons_of_ne_nil (splitFrom_ne_nil (d :: v) 0 s)
        have hlt : s.length < (d :: (v ++ s)).length := by
          rw [List.length_cons, List.length_append]
          omega
        have := ih s.length hlt s rfl
        rw [splitOn, hp] at this
        simpa [splitOn, hp, List.intercalate] using this
      · rw [intercalate_extendHead _ _ (splitFrom_ne_nil _ _ _)]
        have := ih r.length (by simp) r rfl
        rw [splitOn] at this
        rw [this]

end Text

end OpeningHours
