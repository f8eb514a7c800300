/-!
# Entries in ascending order of their keys

A list of entries sorted by key, each key once. `put` adds an entry in its place and replaces the
one that has its key. The main statement is that the keys stay strictly ascending
(`ascending_put`).
-/

namespace OpeningHours.OrderedEntries

variable {κ ν : Type} [LT κ] [DecidableLT κ]

/-- Put an entry in its place. -/
def put (k : κ) (v : ν) : List (κ × ν) → List (κ × ν)
  | [] => [(k, v)]
  | (j, w) :: entries =>
    if k < j then (k, v) :: (j, w) :: entries
    else if j < k then (j, w) :: put k v entries
    else (k, v) :: entries

/-- The entries of a list in order; of several with one key the last counts. -/
def ofList (entries : List (κ × ν)) : List (κ × ν) :=
  entries.foldl (fun m (k, v) => put k v m) []

/-- The keys are strictly ascending. -/
def Ascending (entries : List (κ × ν)) : Prop :=
  entries.Pairwise fun a b => a.1 < b.1

theorem fst_of_mem_put {k : κ} {v : ν} {entries : List (κ × ν)} {e : κ × ν}
    (h : e ∈ put k v entries) : e.1 = k ∨ e ∈ entries := by
  induction entries with
  | nil =>
    obtain rfl : e = (k, v) := by simpa [put] using h
    exact .inl rfl
  | cons d entries ih =>
    rw [put] at h
    split at h
    · rcases List.mem_cons.1 h with rfl | h
      · exact .inl rfl
      · exact .inr h
    · split at h
      · rcases List.mem_cons.1 h with rfl | h
        · exact .inr (by simp)
        · exact (ih h).imp id fun h => by simp [h]
      · rcases List.mem_cons.1 h with rfl | h
        · exact .inl rfl
        · exact .inr (by simp [h])

/-- Putting an entry keeps the keys strictly ascending, where keys that are not smaller either way
are equal. -/
theorem ascending_put (htrans : ∀ {a b c : κ}, a < b → b < c → a < c)
    (heq : ∀ {a b : κ}, ¬ a < b → ¬ b < a → a = b) {k : κ} {v : ν} {entries : List (κ × ν)}
    (h : Ascending entries) : Ascending (put k v entries) := by
  induction entries with
  | nil => simp [put, Ascending]
  | cons d entries ih =>
    obtain ⟨j, w⟩ := d
    obtain ⟨hd, he⟩ := List.pairwise_cons.1 h
    rw [put]
    split
    · next hlt =>
      refine List.pairwise_cons.2 ⟨fun e hm => ?_, h⟩
      rcases List.mem_cons.1 hm with rfl | hm
      · exact hlt
      · exact htrans hlt (hd e hm)
    · split
      · next hgt =>
        refine List.pairwise_cons.2 ⟨fun e hm => ?_, ih he⟩
        rcases fst_of_mem_put hm with hk | hm
        · rw [hk]; exact hgt
        · exact hd e hm
      · next hlt hgt =>
        obtain rfl := heq hlt hgt
        exact List.pairwise_cons.2 ⟨hd, he⟩

end OpeningHours.OrderedEntries
