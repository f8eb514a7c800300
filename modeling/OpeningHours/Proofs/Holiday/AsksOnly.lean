import OpeningHours.Proofs.Holiday.Questions

/-!
# What a query may ask

A query asks for holidays one date at a time, and which date it asks for next may hang on the
answers so far. `HolidayQuery.AsksOnly` bounds the dates on every path of answers. The bound has one
rule for each way of combining queries, and two uses: calendars that agree on the dates cannot be
told apart (**`AsksOnly.under_congr`**), and a cache that answers the questions loads no year but
those of the dates (**`HolidayCache.loadsOnly_run`**).
-/

namespace OpeningHours

namespace HolidayQuery

variable {α β σ : Type} {dates : List Date} {date : Date} {q : HolidayQuery α}

/-- The query asks for no dates but those in the list, whatever the answers. -/
inductive AsksOnly (dates : List Date) : HolidayQuery α → Prop where
  | answer (a : α) : AsksOnly dates (.answer a)
  | ask {date : Date} {next : Bool → HolidayQuery α} (hdate : date ∈ dates)
      (hnext : ∀ b, AsksOnly dates (next b)) : AsksOnly dates (.ask date next)

/-! ## Combining queries -/

theorem asksOnly_pure (a : α) : (pure a : HolidayQuery α).AsksOnly dates :=
  .answer a

theorem asksOnly_isHoliday (h : date ∈ dates) : (isHoliday date).AsksOnly dates :=
  .ask h .answer

theorem AsksOnly.bind {f : α → HolidayQuery β} (hq : q.AsksOnly dates)
    (hf : ∀ a, (f a).AsksOnly dates) : (q >>= f).AsksOnly dates := by
  show (q.andThen f).AsksOnly dates
  induction hq with
  | answer a => exact hf a
  | ask hdate hnext ih => exact .ask hdate ih

theorem AsksOnly.map (f : α → β) (hq : q.AsksOnly dates) : (f <$> q).AsksOnly dates :=
  hq.bind fun a => asksOnly_pure (f a)

theorem AsksOnly.onlyIf {q : HolidayQuery Bool} (b : Bool) (hq : q.AsksOnly dates) :
    (onlyIf b q).AsksOnly dates := by
  cases b with
  | true => exact hq
  | false => exact asksOnly_pure false

theorem asksOnly_any {qs : List (HolidayQuery Bool)} (h : ∀ q ∈ qs, q.AsksOnly dates) :
    (any qs).AsksOnly dates := by
  induction qs with
  | nil => exact asksOnly_pure false
  | cons q qs ih =>
    obtain ⟨hq, hqs⟩ := List.forall_mem_cons.1 h
    refine hq.bind ?_
    intro b
    cases b with
    | true => exact asksOnly_pure true
    | false => exact ih hqs

theorem asksOnly_strongest {qs : List (HolidayQuery Tristate)}
    (h : ∀ q ∈ qs, q.AsksOnly dates) : (strongest qs).AsksOnly dates := by
  induction qs with
  | nil => exact asksOnly_pure Tristate.no
  | cons q qs ih =>
    obtain ⟨hq, hqs⟩ := List.forall_mem_cons.1 h
    refine hq.bind ?_
    intro s
    cases s with
    | yes => exact asksOnly_pure Tristate.yes
    | no => exact ih hqs
    | unknown =>
      refine (ih hqs).bind ?_
      intro rest
      cases rest <;> exact asksOnly_pure _

/-! ## Calendars and look-ups -/

theorem AsksOnly.asked_subset (hq : q.AsksOnly dates) (holidays : HolidayCalendar) :
    q.asked holidays ⊆ dates := by
  induction hq with
  | answer a => exact List.nil_subset dates
  | ask hdate hnext ih => exact List.cons_subset.2 ⟨hdate, ih _⟩

/-- **Calendars that agree on the dates cannot be told apart.** -/
theorem AsksOnly.under_congr {g h : HolidayCalendar} (hq : q.AsksOnly dates)
    (hgh : ∀ d ∈ dates, g d = h d) : q.under g = q.under h :=
  HolidayQuery.under_congr q fun d hd => hgh d (hq.asked_subset g hd)

/-- What every look-up of one of the dates keeps is kept by the run. -/
theorem AsksOnly.run_induction {lookUp : Date → σ → Bool × σ} {P : σ → Prop}
    (hq : q.AsksOnly dates) (hstep : ∀ d ∈ dates, ∀ s, P s → P (lookUp d s).2) {s : σ}
    (hs : P s) : P (q.run lookUp s).2 := by
  induction hq generalizing s with
  | answer a => exact hs
  | ask hdate hnext ih => exact ih _ (hstep _ hdate s hs)

end HolidayQuery

/-! ## Years that are loaded -/

namespace HolidayCache

variable {source : HolidaySource} {folder : Option DiskPath} {years : List Int} {year : Int}
  {dates : List Date} {c c' c'' : HolidayCache}

/-- Between two states of a cache no years but those in the list were loaded: the source was asked
for none but these, and the other years are in memory and on the disk as they were. -/
structure LoadsOnly (folder : Option DiskPath) (years : List Int) (c c' : HolidayCache) : Prop where
  asked : ∃ fetched, fetched ⊆ years ∧ c'.asked = c.asked ++ fetched
  lookup_eq : ∀ year, year ∉ years → c'.years.lookup year = c.years.lookup year
  stored_eq : ∀ year, year ∉ years →
    storedYear? folder c'.disk year = storedYear? folder c.disk year

theorem LoadsOnly.refl (folder : Option DiskPath) (years : List Int) (c : HolidayCache) :
    LoadsOnly folder years c c where
  asked := ⟨[], List.nil_subset years, (List.append_nil c.asked).symm⟩
  lookup_eq _ _ := rfl
  stored_eq _ _ := rfl

theorem LoadsOnly.trans (h : LoadsOnly folder years c c') (h' : LoadsOnly folder years c' c'') :
    LoadsOnly folder years c c'' where
  asked := by
    obtain ⟨fetched, hsub, heq⟩ := h.asked
    obtain ⟨fetched', hsub', heq'⟩ := h'.asked
    refine ⟨fetched ++ fetched', List.append_subset.2 ⟨hsub, hsub'⟩, ?_⟩
    rw [heq', heq, List.append_assoc]
  lookup_eq year hyear := (h'.lookup_eq year hyear).trans (h.lookup_eq year hyear)
  stored_eq year hyear := (h'.stored_eq year hyear).trans (h.stored_eq year hyear)

/-- However a cache comes by the dates of a year, it loads no other. -/
theorem Loading.loadsOnly (h : Loading source folder year c dates c') (hyear : year ∈ years) :
    LoadsOnly folder years c c' := by
  have hone : [year] ⊆ years := by simpa using hyear
  have hne {y : Int} (hy : y ∉ years) : y ≠ year := by
    rintro rfl
    exact hy hyear
  cases h with
  | remembered hfound => exact .refl folder years c
  | read hnew hfile =>
    exact ⟨⟨[], List.nil_subset years, (List.append_nil c.asked).symm⟩,
      fun y hy => lookup_remember_of_ne (hne hy), fun _ _ => rfl⟩
  | failed hnew hfile hsource =>
    exact ⟨⟨[year], hone, rfl⟩, fun y hy => lookup_remember_of_ne (hne hy), fun _ _ => rfl⟩
  | fetched hnew hfile hsource =>
    exact ⟨⟨[year], hone, rfl⟩, fun y hy => lookup_remember_of_ne (hne hy),
      fun y hy => storedYear?_keepIn (hne hy)⟩

theorem loadsOnly_isHoliday {date : Date} (h : date.year ∈ years) (source : HolidaySource)
    (folder : Option DiskPath) (c : HolidayCache) :
    LoadsOnly folder years c (isHoliday source folder date c).2 :=
  (loading_holidays source folder date.year c).loadsOnly h

/-- **A cache that answers a query loads no year but those of the dates that it may ask for.** -/
theorem loadsOnly_run {α : Type} {q : HolidayQuery α} (hq : q.AsksOnly dates)
    (source : HolidaySource) (folder : Option DiskPath) (c : HolidayCache) :
    LoadsOnly folder (dates.map Date.year) c (run source folder q c).2 := by
  refine hq.run_induction (P := LoadsOnly folder (dates.map Date.year) c) ?_ (.refl folder _ c)
  intro d hd c' h
  exact h.trans (loadsOnly_isHoliday (List.mem_map_of_mem hd) source folder c')

end HolidayCache

end OpeningHours
