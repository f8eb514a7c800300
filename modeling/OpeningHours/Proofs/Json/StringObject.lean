import Mathlib.Data.List.Basic
import OpeningHours.Json.Reader
import OpeningHours.Json.Writer
import OpeningHours.Proofs.Text.Pieces

/-!
# Written objects of strings are read back

A quoted text is read as the text that was quoted, whatever characters it holds
(`readString?_quote`), and an object of strings written one member to a line is read as these members
in their order (**`read?_prettyStrings`**).
-/

namespace OpeningHours.Json

variable {c : Char} {rest t : Text} {n : Nat}

/-! ## Strings -/

theorem hexDigit?_digitChar {d : Nat} (hd : d < 16) : hexDigit? d.digitChar = some d := by
  have hall : ∀ d : Fin 16, hexDigit? (d : Nat).digitChar = some (d : Nat) := by decide
  exact hall ⟨d, hd⟩

theorem readUnits?_cons (hquote : c ≠ '"') (hescape : c ≠ '\\') (hcontrol : ¬ c.toNat < 0x20)
    (r : Text) :
    readUnits? (c :: r) = (readUnits? r).map fun (units, rest) => (c.toNat :: units, rest) := by
  rw [readUnits?.eq_def]
  split
  · next h => simp at h
  · next h => exact absurd (List.cons.inj h).1 hquote
  · next h => exact absurd (List.cons.inj h).1 hescape
  · next h => exact absurd (List.cons.inj h).1 hescape
  · next h =>
    obtain ⟨rfl, rfl⟩ := List.cons.inj h
    rw [if_neg hcontrol]

/-- A control character is read from its hexadecimal digits. -/
theorem readUnits?_control (hc : n < 0x20) (r : Text) :
    readUnits? ('\\' :: 'u' :: '0' :: '0' :: (n / 16).digitChar :: (n % 16).digitChar :: r) =
      (readUnits? r).map fun (units, rest) => (n :: units, rest) := by
  have hunit : hexUnit? '0' '0' (n / 16).digitChar (n % 16).digitChar = some n := by
    have hzero : hexDigit? '0' = some 0 := by decide
    rw [hexUnit?, hzero, hexDigit?_digitChar (by omega), hexDigit?_digitChar (by omega)]
    simp only [Option.bind_eq_bind, Option.bind_some, Option.pure_def, Option.some.injEq]
    omega
  rw [readUnits?, hunit]

/-- One character is read from what is written for it. -/
theorem readUnits?_escape (c : Char) (r : Text) : readUnits? (escape c ++ r) =
    (readUnits? r).map fun (units, rest) => (c.toNat :: units, rest) := by
  unfold escape
  split
  · rfl
  · rfl
  · rfl
  · rfl
  · rfl
  · rfl
  · rfl
  · split
    · next hc => exact readUnits?_control hc r
    · next hquote hescape _ _ _ _ _ hc => exact readUnits?_cons hquote hescape hc r

theorem readUnits?_quoted (t rest : Text) :
    readUnits? (t.flatMap escape ++ '"' :: rest) = some (t.map Char.toNat, rest) := by
  induction t with
  | nil => rfl
  | cons c t ih =>
    rw [List.flatMap_cons, List.append_assoc, readUnits?_escape, ih]
    rfl

/-- No character is half of a surrogate pair. -/
theorem joinUnits?_map_toNat (t : Text) : joinUnits? none (t.map Char.toNat) = some t := by
  induction t with
  | nil => rfl
  | cons c t ih =>
    have hvalid : c.toNat < 0xD800 ∨ 0xDFFF < c.toNat := by
      rcases c.valid with h | ⟨h, -⟩
      · exact .inl h
      · exact .inr h
    have hhigh : isHighHalf c.toNat = false := by
      simp only [isHighHalf, Bool.and_eq_false_iff, decide_eq_false_iff_not]
      omega
    have hlow : isLowHalf c.toNat = false := by
      simp only [isLowHalf, Bool.and_eq_false_iff, decide_eq_false_iff_not]
      omega
    rw [List.map_cons, joinUnits?, hhigh, hlow, ih, Char.ofNat_toNat]
    rfl

/-- **A quoted text is read back.** -/
theorem readString?_quote (t rest : Text) :
    readString? (t.flatMap escape ++ '"' :: rest) = some (some t, rest) := by
  rw [readString?, readUnits?_quoted]
  simp only [Option.map_some, joinUnits?_map_toNat]

/-! ## Members -/

/-- A member as a value. -/
def stringMember (member : Text × Text) : Option Text × Value :=
  (some member.1, .string (some member.2))

/-- A member from its opening quote on. -/
def memberText (member : Text × Text) : Text :=
  quote member.1 ++ ": ".toList ++ quote member.2

theorem prettyMember_eq (member : Text × Text) :
    prettyMember member = '\n' :: ' ' :: ' ' :: memberText member := by
  simp [prettyMember, memberText]

/-- The indentation of a member is skipped. -/
theorem skipBlanks_indented (member : Text × Text) (r : Text) :
    skipBlanks ('\n' :: ' ' :: ' ' :: (memberText member ++ r)) = memberText member ++ r := by
  rw [memberText, quote]
  rfl

theorem skipBlanks_of_not (hc : isJsonBlank c = false) (r : Text) : skipBlanks (c :: r) = c :: r :=
  List.dropWhile_cons_of_neg (by simp [hc])

theorem readMembers?_memberText (member : Text × Text) (n : Nat) (rest : Text) :
    readMembers? (n + 2) (memberText member ++ rest) =
      match skipBlanks rest with
      | '\x7d' :: rest => some ([stringMember member], rest)
      | ',' :: r =>
        (readMembers? (n + 1) (skipBlanks r)).map fun (ms, rest) => (stringMember member :: ms, rest)
      | _ => none := by
  obtain ⟨key, value⟩ := member
  have htext : memberText (key, value) ++ rest = '"' :: (key.flatMap escape ++
      '"' :: ':' :: ' ' :: '"' :: (value.flatMap escape ++ '"' :: rest)) := by
    simp [memberText, quote]
  have hcolon (r : Text) : afterColon? (':' :: ' ' :: '"' :: r) = some ('"' :: r) := rfl
  rw [htext, readMembers?, readString?_quote]
  simp only [hcolon, readValue?, readString?_quote, Option.map_some]
  rfl

theorem readMembers?_pretty (member : Text × Text) (members : List (Text × Text)) (rest : Text)
    (hn : members.length + 2 ≤ n) :
    readMembers? n (memberText member ++
        ((members.flatMap fun m => ',' :: prettyMember m) ++ '\n' :: '\x7d' :: rest)) =
      some ((member :: members).map stringMember, rest) := by
  induction members generalizing member n with
  | nil =>
    obtain ⟨n, rfl⟩ : ∃ k, n = k + 2 := ⟨n - 2, by omega⟩
    rw [readMembers?_memberText]
    rfl
  | cons next members ih =>
    rw [List.length_cons] at hn
    obtain ⟨n, rfl⟩ : ∃ k, n = k + 2 := ⟨n - 2, by omega⟩
    have hrest := ih (n := n + 1) next (by omega)
    rw [List.flatMap_cons, List.cons_append, List.cons_append, readMembers?_memberText,
      skipBlanks_of_not (by decide), List.append_assoc, prettyMember_eq]
    simp only [List.cons_append, skipBlanks_indented, hrest, Option.map_some]
    rfl

/-! ## Objects -/

theorem prettyStrings_cons (member : Text × Text) (members : List (Text × Text)) :
    prettyStrings (member :: members) = '\x7b' :: '\n' :: ' ' :: ' ' :: (memberText member ++
      ((members.flatMap fun m => ',' :: prettyMember m) ++ ['\n', '\x7d'])) := by
  rw [prettyStrings, Text.intercalate_map_cons, prettyMember_eq]
  · simp
  · simp

theorem length_le_length_prettyStrings (members : List (Text × Text)) :
    members.length ≤ (prettyStrings members).length := by
  cases members with
  | nil => exact Nat.zero_le _
  | cons member members =>
    have hbehind : members.length ≤ (members.flatMap fun m => ',' :: prettyMember m).length := by
      induction members with
      | nil => exact Nat.le_refl 0
      | cons m ms ih =>
        rw [List.flatMap_cons, List.length_append, List.length_cons, List.length_cons]
        omega
    simp only [prettyStrings_cons, List.length_cons, List.length_append]
    omega

theorem readValue?_prettyStrings (members : List (Text × Text)) (hn : members.length + 1 ≤ n) :
    readValue? (n + 1) (prettyStrings members) = some (.object (members.map stringMember), []) := by
  cases members with
  | nil => rfl
  | cons member members =>
    have hread := readMembers?_pretty member members [] hn
    -- The members begin with a quote, so they are not taken for the end of an empty object
    obtain ⟨r, hr⟩ : ∃ r, memberText member = '"' :: r := ⟨_, rfl⟩
    rw [prettyStrings_cons, readValue?]
    simp only [skipBlanks_indented]
    rw [hr, List.cons_append] at hread ⊢
    exact congrArg (Option.map fun (ms, rest) => (Value.object ms, rest)) hread

/-- **An object of strings is read back**, its members in their order. -/
theorem read?_prettyStrings (members : List (Text × Text)) :
    read? (prettyStrings members) = some (.object (members.map stringMember)) := by
  have hskip : skipBlanks (prettyStrings members) = prettyStrings members := by
    cases members with
    | nil => rfl
    | cons member members => rw [prettyStrings_cons, skipBlanks_of_not (by decide)]
  have hfuel := length_le_length_prettyStrings members
  rw [read?, hskip, readValue?_prettyStrings members (by omega)]
  rfl

end OpeningHours.Json
