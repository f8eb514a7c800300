import Mathlib.Data.List.Induction
import Mathlib.Data.List.Sort
import OpeningHours.Holiday.OrderedEntries

/-!
# What ordered entries hold

Ordered entries are determined by their members (**`eq_of_mem_iff`**), and they hold for every key
what was put there last (**`mem_ofList`**). Entries with keys of their own are only brought into
order (`mem_ofList_of_distinct`), and the keys are those that were put (`mem_keys_ofList`). Where
several ordered entries are made into entries for one key, the greatest of them counts
(**`mem_ofList_filterMap`**).
-/

namespace OpeningHours.OrderedEntries

variable {κ ν : Type} {k j : κ} {v w : ν} {entries entries' : List (κ × ν)} {e : κ × ν}

/-- Every key stands with one value only. -/
def Distinct (entries : List (κ × ν)) : Prop :=
  entries.Pairwise fun a b => a.1 ≠ b.1

section Lookup

variable [DecidableEq κ]

theorem lookup_cons_eq (k j : κ) (v : ν) (entries : List (κ × ν)) :
    ((k, v) :: entries).lookup j = if j = k then some v else entries.lookup j := by
  rw [List.lookup_cons]
  by_cases hjk : j = k
  · simp [hjk]
  · have hbeq : (j == k) = false := by simpa using hjk
    rw [hbeq, if_neg hjk]

/-- Where keys stand with one value only, that value is the one that is looked up. -/
theorem mem_iff_lookup (h : Distinct entries) : (k, v) ∈ entries ↔ entries.lookup k = some v := by
  induction entries with
  | nil => simp
  | cons d entries ih =>
    obtain ⟨j, w⟩ := d
    obtain ⟨hd, hrest⟩ := List.pairwise_cons.1 h
    rw [lookup_cons_eq, List.mem_cons, ih hrest]
    by_cases hkj : k = j
    · subst hkj
      have hnot : entries.lookup k ≠ some v := fun hm => hd _ ((ih hrest).2 hm) rfl
      simp [hnot, eq_comm]
    · simp [hkj]

theorem lookup_eq_none_iff_keys : entries.lookup k = none ↔ k ∉ entries.map Prod.fst := by
  simp only [List.lookup_eq_none_iff, bne_iff_ne, List.mem_map, not_exists, not_and]
  exact ⟨fun h e he heq => h e he heq.symm, fun h e he heq => h e he heq.symm⟩

end Lookup

/-! ## Order -/

variable [LT κ]

theorem Ascending.keys (h : Ascending entries) : (entries.map Prod.fst).Pairwise (· < ·) :=
  List.pairwise_map.2 h

theorem ascending_ofList [DecidableLT κ] [Std.Trichotomous (α := κ) (· < ·)]
    [Trans (α := κ) (· < ·) (· < ·) (· < ·)] (entries : List (κ × ν)) : Ascending (ofList entries) := by
  suffices ∀ start : List (κ × ν), Ascending start →
      Ascending (entries.foldl (fun m e => put e.1 e.2 m) start) from this [] .nil
  induction entries with
  | nil => exact fun start h => h
  | cons d entries ih =>
    intro start h
    exact ih _ (ascending_put Trans.trans (Std.Trichotomous.trichotomous _ _) h)

variable [Std.Irrefl (α := κ) (· < ·)]

theorem Ascending.distinct (h : Ascending entries) : Distinct entries := by
  refine h.imp ?_
  rintro a b hlt heq
  rw [heq] at hlt
  exact Std.Irrefl.irrefl _ hlt

/-- **Ordered entries with the same members are the same.** -/
theorem eq_of_mem_iff [Trans (α := κ) (· < ·) (· < ·) (· < ·)] (h : Ascending entries)
    (h' : Ascending entries') (hmem : ∀ e, e ∈ entries ↔ e ∈ entries') : entries = entries' := by
  have hasymm {a b : κ} (hab : a < b) : ¬ b < a := fun hba =>
    Std.Irrefl.irrefl a (Trans.trans hab hba)
  have : Std.Antisymm fun a b : κ × ν => a.1 < b.1 := ⟨fun _ _ hab hba => absurd hba (hasymm hab)⟩
  have : Std.Irrefl fun a b : κ × ν => a.1 < b.1 := ⟨fun a => Std.Irrefl.irrefl a.1⟩
  exact List.Pairwise.eq_of_mem_iff h h' hmem

/-! ## Putting entries -/

section Putting

variable [DecidableLT κ] [DecidableEq κ] [Std.Trichotomous (α := κ) (· < ·)]

theorem lookup_put (k j : κ) (v : ν) (entries : List (κ × ν)) :
    (put k v entries).lookup j = if j = k then some v else entries.lookup j := by
  induction entries with
  | nil => exact lookup_cons_eq k j v []
  | cons d entries ih =>
    obtain ⟨i, w⟩ := d
    rw [put]
    split
    · exact lookup_cons_eq k j v _
    · split
      · next hik =>
        have hne : i ≠ k := by
          rintro rfl
          exact Std.Irrefl.irrefl _ hik
        rw [lookup_cons_eq, lookup_cons_eq, ih]
        by_cases hji : j = i
        · rw [if_pos hji, if_neg (hji ▸ hne), if_pos hji]
        · rw [if_neg hji, if_neg hji]
      · next hki hik =>
        obtain rfl := Std.Trichotomous.trichotomous _ _ hki hik
        rw [lookup_cons_eq, lookup_cons_eq]
        split <;> rfl

/-- What is looked up is what was put last. -/
theorem lookup_ofList (entries : List (κ × ν)) (k : κ) :
    (ofList entries).lookup k = entries.reverse.lookup k := by
  induction entries using List.reverseRecOn with
  | nil => rfl
  | append_singleton entries d ih =>
    obtain ⟨j, w⟩ := d
    have hput : ofList (entries ++ [(j, w)]) = put j w (ofList entries) := by simp [ofList]
    rw [hput, lookup_put, ih, List.reverse_concat, lookup_cons_eq]

theorem mem_keys_ofList : k ∈ (ofList entries).map Prod.fst ↔ k ∈ entries.map Prod.fst := by
  rw [← not_iff_not, ← lookup_eq_none_iff_keys, lookup_ofList, lookup_eq_none_iff_keys,
    List.map_reverse, List.mem_reverse]

variable [Trans (α := κ) (· < ·) (· < ·) (· < ·)]

/-- **Ordered entries hold for every key what was put there last.** -/
theorem mem_ofList : (k, v) ∈ ofList entries ↔ entries.reverse.lookup k = some v := by
  rw [mem_iff_lookup (ascending_ofList entries).distinct, lookup_ofList]

/-- Of several entries with one key the last is held. -/
theorem mem_ofList_iff_append : (k, v) ∈ ofList entries ↔
    ∃ front behind, entries = front ++ (k, v) :: behind ∧ k ∉ behind.map Prod.fst := by
  rw [mem_ofList, List.lookup_eq_some_iff]
  constructor
  · rintro ⟨behind, front, hentries, hbehind⟩
    refine ⟨front.reverse, behind.reverse, ?_, ?_⟩
    · rw [List.reverse_eq_iff.1 hentries]
      simp
    · rw [List.map_reverse, List.mem_reverse, List.mem_map]
      rintro ⟨e, he, rfl⟩
      simpa using hbehind e he
  · rintro ⟨front, behind, rfl, hbehind⟩
    refine ⟨behind.reverse, front.reverse, by simp, fun e he => ?_⟩
    rw [bne_iff_ne]
    rintro rfl
    exact hbehind (List.mem_map_of_mem (List.mem_reverse.1 he))

/-- Entries with keys of their own are only brought into order. -/
theorem mem_ofList_of_distinct (h : Distinct entries) : e ∈ ofList entries ↔ e ∈ entries := by
  obtain ⟨k, v⟩ := e
  have hreverse : Distinct entries.reverse := List.pairwise_reverse.2 (h.imp fun hne => hne.symm)
  rw [mem_ofList, ← mem_iff_lookup hreverse, List.mem_reverse]

end Putting

/-! ## Entries made from ordered entries -/

variable [Trans (α := κ) (· < ·) (· < ·) (· < ·)] {κ' ν' : Type} [LT κ'] [DecidableLT κ']
  [DecidableEq κ'] [Std.Irrefl (α := κ') (· < ·)] [Std.Trichotomous (α := κ') (· < ·)]
  [Trans (α := κ') (· < ·) (· < ·) (· < ·)]

/-- **Of the entries made from ordered ones the greatest key counts**, where several of them have
made an entry for the same key. -/
theorem mem_ofList_filterMap {f : κ × ν → Option (κ' × ν')} {k' : κ'} {v' : ν'}
    (h : Ascending entries) :
    (k', v') ∈ ofList (entries.filterMap f) ↔ ∃ e ∈ entries, f e = some (k', v') ∧
      ∀ d ∈ entries, ∀ w, f d = some (k', w) → d ≠ e → d.1 < e.1 := by
  rw [mem_ofList, List.lookup_eq_some_iff]
  constructor
  · rintro ⟨behind, front, hentries, hbehind⟩
    rw [List.reverse_eq_append_iff, List.reverse_cons, List.append_assoc,
      List.singleton_append] at hentries
    obtain ⟨a, u, rfl, -, hu⟩ := List.filterMap_eq_append_iff.1 hentries
    obtain ⟨skipped, e, b, rfl, -, he, hb⟩ := List.filterMap_eq_cons_iff.1 hu
    have hbelow : ∀ d ∈ a ++ skipped, d.1 < e.1 := by
      rw [← List.append_assoc] at h
      exact fun d hd => (List.pairwise_append.1 h).2.2 d hd e List.mem_cons_self
    refine ⟨e, by simp, he, fun d hd w hw hne => ?_⟩
    by_cases hdb : d ∈ b
    · have hmem : (k', w) ∈ b.filterMap f := List.mem_filterMap.2 ⟨d, hdb, hw⟩
      rw [hb, List.mem_reverse] at hmem
      simpa using hbehind _ hmem
    · refine hbelow d ?_
      simpa [hne, hdb] using hd
  · rintro ⟨e, he, hfe, hlast⟩
    obtain ⟨a, b, rfl⟩ := List.append_of_mem he
    refine ⟨(b.filterMap f).reverse, (a.filterMap f).reverse, by simp [hfe], ?_⟩
    rintro ⟨j, w⟩ hmem
    obtain ⟨d, hd, hw⟩ := List.mem_filterMap.1 (List.mem_reverse.1 hmem)
    rw [bne_iff_ne]
    rintro rfl
    -- An entry behind the last one that counts would have a greater key, and a smaller one.
    have hgreater := (List.pairwise_cons.1 (List.pairwise_append.1 h).2.1).1 d hd
    have hne : d ≠ e := by
      rintro rfl
      exact Std.Irrefl.irrefl _ hgreater
    have hsmaller := hlast d (by simp [hd]) w hw hne
    exact Std.Irrefl.irrefl _ (Trans.trans hgreater hsmaller)

end OpeningHours.OrderedEntries
