/-!
# Ascending lists of numbers

The days and ordinals of a rule are kept in ascending order without repeats, however the text lists
them. The main statements: `ascending` keeps the members (`mem_ascending`) and is strictly
ascending (`pairwise_ascending`).
-/

namespace OpeningHours

/-- Put a number into an ascending list without repeats. -/
def insertAscending (n : Nat) : List Nat → List Nat
  | [] => [n]
  | m :: ms =>
    if n < m then n :: m :: ms
    else if n = m then m :: ms
    else m :: insertAscending n ms

/-- The numbers of a list, ascending and without repeats. -/
def ascending (ns : List Nat) : List Nat :=
  ns.foldr insertAscending []

theorem mem_insertAscending {n k : Nat} {ms : List Nat} :
    k ∈ insertAscending n ms ↔ k = n ∨ k ∈ ms := by
  induction ms with
  | nil => simp [insertAscending]
  | cons m ms ih =>
    rw [insertAscending]
    split
    · simp
    · split
      · next h => simp [h]
      · simp only [List.mem_cons, ih]
        exact or_left_comm

theorem mem_ascending {k : Nat} {ns : List Nat} : k ∈ ascending ns ↔ k ∈ ns := by
  induction ns with
  | nil => simp [ascending]
  | cons n ns ih =>
    have : ascending (n :: ns) = insertAscending n (ascending ns) := rfl
    rw [this, mem_insertAscending, ih, List.mem_cons]

theorem pairwise_insertAscending {n : Nat} {ms : List Nat} (h : ms.Pairwise (· < ·)) :
    (insertAscending n ms).Pairwise (· < ·) := by
  induction ms with
  | nil => simp [insertAscending]
  | cons m ms ih =>
    obtain ⟨hm, hms⟩ := List.pairwise_cons.1 h
    rw [insertAscending]
    split
    · next hlt =>
      refine List.pairwise_cons.2 ⟨fun k hk => ?_, h⟩
      rcases List.mem_cons.1 hk with rfl | hk
      · exact hlt
      · exact Nat.lt_trans hlt (hm k hk)
    · split
      · exact h
      · refine List.pairwise_cons.2 ⟨fun k hk => ?_, ih hms⟩
        rcases mem_insertAscending.1 hk with rfl | hk
        · omega
        · exact hm k hk

/-- The list is strictly ascending. -/
theorem pairwise_ascending (ns : List Nat) : (ascending ns).Pairwise (· < ·) := by
  induction ns with
  | nil => simp [ascending]
  | cons n ns ih => exact pairwise_insertAscending ih

end OpeningHours
