/-!
# Three-valued answers

A text may settle a question either way or leave it open. `Tristate` is the answer to such a
question: a definite yes, a definite no, or unknown. `Tristate.orElse` closes the third case by the
caller's policy. A policy has no say in a definite answer (`orElse_ofBool`), and a definite answer
is read back as it is (`toOption_ofBool`).
-/

namespace OpeningHours

/-- The answer to a question that a text may leave open. -/
inductive Tristate where
  | yes
  | no
  | unknown
  deriving DecidableEq, Repr

namespace Tristate

/-- The definite answer `b`. -/
def ofBool (b : Bool) : Tristate :=
  if b then .yes else .no

/-- Whether the answer is a definite yes. -/
def isYes (s : Tristate) : Bool :=
  s == .yes

/-- Whether the answer is a definite no. -/
def isNo (s : Tristate) : Bool :=
  s == .no

/-- The answer as a Boolean; an unknown one counts as `unknownAs`. -/
def orElse (s : Tristate) (unknownAs : Bool) : Bool :=
  match s with
  | .yes => true
  | .no => false
  | .unknown => unknownAs

/-- The definite answer, if there is one. -/
def toOption : Tristate → Option Bool
  | .yes => some true
  | .no => some false
  | .unknown => none

/-! ## Policies and definite answers -/

@[simp] theorem orElse_ofBool (b unknownAs : Bool) : (ofBool b).orElse unknownAs = b := by
  cases b <;> rfl

@[simp] theorem toOption_ofBool (b : Bool) : (ofBool b).toOption = some b := by
  cases b <;> rfl

@[simp] theorem ofBool_eq_yes (b : Bool) : ofBool b = .yes ↔ b = true := by
  cases b <;> simp [ofBool]

@[simp] theorem ofBool_eq_no (b : Bool) : ofBool b = .no ↔ b = false := by
  cases b <;> simp [ofBool]

@[simp] theorem ofBool_ne_unknown (b : Bool) : ofBool b ≠ .unknown := by
  cases b <;> simp [ofBool]

end Tristate

end OpeningHours
