import Mathlib.Data.List.Basic
import OpeningHours.Proofs.Pattern.Spelling
import OpeningHours.Proofs.Scope.DayText

/-!
# Weekdays that stand on their own

The last pass over a text reads its single weekdays. It meets every kanji of a weekday but the `日`
of an ending, and takes it where it stands on its own: behind a character that a weekday may
follow, and in front of an ending or of a character that may follow a weekday.

* `WeekdayScan`: the scan for weekdays, one constructor for each ending;
* `NamesWeekday`, `singleWeekdays_eq_nil_iff`: the pass reads nothing exactly if no weekday stands
  on its own;
* **`extractDays_eq_iff`**: nor is anything else read of a text without the other words for days;
* `OverlooksWeekday`, **`namesWeekday_singleWeekdays`**: the pass leaves a weekday standing on its
  own exactly if one stands right behind the short ending `曜` of another. The ending keeps it from
  standing on its own, and the space left in its place does not;
* **`extractDays_left_iff`**: what is left of a text is not about days exactly if no weekday has
  been overlooked so.
-/

namespace OpeningHours

open Pattern

variable {before before' : Option Char} {c x : Char} {r t u : Text} {d : Weekday}
  {pieces : List Piece}

/-! ## The kanji of the weekdays -/

namespace Weekday

theorem isKanji_kanji (d : Weekday) : isKanji d.kanji = true := by
  simp [isKanji]

theorem eq_kanji_of_ofKanji? (hc : ofKanji? c = some d) : c = d.kanji := by
  unfold ofKanji? at hc
  split at hc <;> cases hc <;> rfl

theorem exists_eq_kanji (hc : isKanji c = true) : ∃ d : Weekday, c = d.kanji := by
  obtain ⟨d, hd⟩ := Option.isSome_iff_exists.1 hc
  exact ⟨d, eq_kanji_of_ofKanji? hd⟩

end Weekday

theorem mayPrecedeWeekday_kanji (d : Weekday) : mayPrecedeWeekday d.kanji = true := by
  simp [mayPrecedeWeekday, d.isKanji_kanji]

theorem mayFollowWeekday_kanji (d : Weekday) : mayFollowWeekday d.kanji = true := by
  simp [mayFollowWeekday, d.isKanji_kanji]

/-! ## The scan for weekdays -/

/-- The hit of a weekday with its ending in front of a rest. -/
def weekdayHit (d : Weekday) (ending rest : Text) : Hit :=
  ⟨d.kanji :: ending, [(1, [d.kanji])], rest⟩

/-- The scan for single weekdays: every kanji of a weekday is hit, with the longest ending that
follows. -/
inductive WeekdayScan : Option Char → Text → List Piece → Prop
  | nil {before : Option Char} : WeekdayScan before [] []
  | other {before : Option Char} {c : Char} {r : Text} {pieces : List Piece}
      (hc : Weekday.isKanji c = false) (htail : WeekdayScan (some c) r pieces) :
      WeekdayScan before (c :: r) (.loose c :: pieces)
  | long {before : Option Char} {r : Text} {pieces : List Piece} (d : Weekday)
      (htail : WeekdayScan (some '日') r pieces) :
      WeekdayScan before (d.kanji :: '曜' :: '日' :: r)
        (.hit before (weekdayHit d ['曜', '日'] r) :: pieces)
  | short {before : Option Char} {r : Text} {pieces : List Piece} (d : Weekday)
      (hr : r.head? ≠ some '日') (htail : WeekdayScan (some '曜') r pieces) :
      WeekdayScan before (d.kanji :: '曜' :: r) (.hit before (weekdayHit d ['曜'] r) :: pieces)
  | bare {before : Option Char} {r : Text} {pieces : List Piece} (d : Weekday)
      (hr : r.head? ≠ some '曜') (htail : WeekdayScan (some d.kanji) r pieces) :
      WeekdayScan before (d.kanji :: r) (.hit before (weekdayHit d [] r) :: pieces)

theorem prefers_weekday_short (d : Weekday) (hr : r.head? ≠ some '日') :
    Wording.oneWeekday.Prefers (d.kanji :: '曜' :: r) (weekdayHit d ['曜'] r) := by
  have hkanji : (keep 1 (one Weekday.isKanji)).Prefers (d.kanji :: '曜' :: r) _ :=
    (prefers_one d.isKanji_kanji ('曜' :: r)).keep 1
  have hlong : (word "曜日").Fails ('曜' :: r) := by
    apply fails_word
    cases r with
    | nil => decide
    | cons c r =>
      have hc : ('日' == c) = false := beq_eq_false_iff_ne.2 fun h => hr (by rw [h]; rfl)
      simp [List.isPrefixOf, hc]
  have hending : Wording.weekdayEnding.Prefers ('曜' :: r) _ :=
    (prefers_word "曜" r).alt_right hlong
  exact hkanji.seq hending.opt

theorem prefers_weekday_bare (d : Weekday) (hr : r.head? ≠ some '曜') :
    Wording.oneWeekday.Prefers (d.kanji :: r) (weekdayHit d [] r) := by
  have hkanji : (keep 1 (one Weekday.isKanji)).Prefers (d.kanji :: r) _ :=
    (prefers_one d.isKanji_kanji r).keep 1
  have hword (w : Text) : (('曜' :: w).isPrefixOf r) = false := by
    cases r with
    | nil => rfl
    | cons c r =>
      have hc : ('曜' == c) = false := beq_eq_false_iff_ne.2 fun h => hr (by rw [h]; rfl)
      simp [List.isPrefixOf, hc]
  have hending : Wording.weekdayEnding.Fails r :=
    Fails.alt (fails_word (hword ['日'])) (fails_word (hword []))
  exact hkanji.seq hending.opt

/-- At the kanji of a weekday the longest ending that follows is hit. -/
theorem weekday_cases (d : Weekday) (r : Text) :
    (∃ u, r = '曜' :: '日' :: u ∧
        Wording.oneWeekday.Prefers (d.kanji :: r) (weekdayHit d ['曜', '日'] u)) ∨
      (∃ u, r = '曜' :: u ∧ u.head? ≠ some '日' ∧
        Wording.oneWeekday.Prefers (d.kanji :: r) (weekdayHit d ['曜'] u)) ∨
      (r.head? ≠ some '曜' ∧
        Wording.oneWeekday.Prefers (d.kanji :: r) (weekdayHit d [] r)) := by
  by_cases hending : r.head? = some '曜'
  · obtain ⟨u, rfl⟩ := List.head?_eq_some_iff.1 hending
    by_cases hlong : u.head? = some '日'
    · obtain ⟨v, rfl⟩ := List.head?_eq_some_iff.1 hlong
      exact .inl ⟨v, rfl, DayToken.prefers_spelled d v⟩
    · exact .inr (.inl ⟨u, rfl, hlong, prefers_weekday_short d hlong⟩)
  · exact .inr (.inr ⟨hending, prefers_weekday_bare d hending⟩)

theorem mayStart_oneWeekday (c : Char) : Wording.oneWeekday.mayStart c = Weekday.isKanji c :=
  Bool.or_false _

theorem weekdayScan_of_scans (hscan : Wording.oneWeekday.Scans before t pieces) :
    WeekdayScan before t pieces := by
  induction hscan with
  | nil => exact .nil
  | @loose before c r pieces hnone htail ih =>
    refine .other ?_ ih
    by_contra hc
    obtain ⟨d, rfl⟩ := Weekday.exists_eq_kanji (by simpa using hc)
    have hsome {h : Hit} (hp : Wording.oneWeekday.Prefers (d.kanji :: r) h) (hne : h.taken ≠ []) :
        False := by
      simp [first?_of_prefers hp hne] at hnone
    rcases weekday_cases d r with ⟨u, -, hp⟩ | ⟨u, -, -, hp⟩ | ⟨-, hp⟩
    · exact hsome hp (by simp [weekdayHit])
    · exact hsome hp (by simp [weekdayHit])
    · exact hsome hp (by simp [weekdayHit])
  | @hit before t h pieces hfirst htail ih =>
    obtain ⟨hne, ht⟩ := first?_eq_some hfirst
    obtain ⟨c, s, hs⟩ := List.exists_cons_of_ne_nil hne
    obtain rfl : c :: (s ++ h.rest) = t := by rw [← ht, hs, List.cons_append]
    have hc : Weekday.isKanji c = true := by
      by_contra hc
      have hstart : Wording.oneWeekday.mayStart c = false := by
        rw [mayStart_oneWeekday]
        simpa using hc
      simp [first?_of_mayStart hstart] at hfirst
    obtain ⟨d, rfl⟩ := Weekday.exists_eq_kanji hc
    generalize s ++ h.rest = r at hfirst
    have heq {k : Hit} (hp : Wording.oneWeekday.Prefers (d.kanji :: r) k) (hne : k.taken ≠ []) :
        h = k := by
      rw [first?_of_prefers hp hne] at hfirst
      exact (Option.some.inj hfirst).symm
    rcases weekday_cases d r with ⟨u, rfl, hp⟩ | ⟨u, rfl, hu, hp⟩ | ⟨hr, hp⟩
    · obtain rfl := heq hp (by simp [weekdayHit])
      exact .long d ih
    · obtain rfl := heq hp (by simp [weekdayHit])
      exact .short d hu ih
    · obtain rfl := heq hp (by simp [weekdayHit])
      exact .bare d hr ih

theorem weekdayScan_scan (t : Text) : WeekdayScan none t (Wording.oneWeekday.scan t) :=
  weekdayScan_of_scans (scans_scan _ t)

/-! ## Which weekdays are read -/

/-- Whether a weekday may end in front of the text, or an ending of it follows. -/
def mayEndWeekday (r : Text) : Bool :=
  r.head? == some '曜' || r.head?.all mayFollowWeekday

theorem hit_weekday (d : Weekday) (ending : Text) :
    (weekdayHit d ending r).weekday? 1 = some d := by
  simp [weekdayHit, Hit.weekday?, Hit.part, Hit.part?]

theorem isSome_readWeekday (d : Weekday) (ending : Text) :
    (DayToken.readWeekday before (weekdayHit d ending r)).isSome =
      standsAlone before (weekdayHit d ending r) := by
  rw [DayToken.readWeekday, hit_weekday]
  split
  · next h => simp [h]
  · next h => simpa using h

/-- With its ending a weekday may stand in front of anything. -/
theorem isSome_readWeekday_spelled (d : Weekday) {ending : Text}
    (hending : ending = ['曜', '日'] ∨ ending = ['曜']) :
    (DayToken.readWeekday before (weekdayHit d ending r)).isSome =
      before.all mayPrecedeWeekday := by
  have hspelled : endsSpelledOut (d.kanji :: ending) = true := by
    rcases hending with rfl | rfl <;> cases d <;> decide
  rw [isSome_readWeekday, standsAlone, weekdayHit, hspelled, Bool.true_or, Bool.and_true]

/-- Without an ending a weekday stands in front of what may follow it. -/
theorem isSome_readWeekday_bare (d : Weekday) (hr : r.head? ≠ some '曜') :
    (DayToken.readWeekday before (weekdayHit d [] r)).isSome =
      (before.all mayPrecedeWeekday && mayEndWeekday r) := by
  have hbare : endsSpelledOut [d.kanji] = false := by
    cases d <;> decide
  have hend : mayEndWeekday r = r.head?.all mayFollowWeekday := by
    simp [mayEndWeekday, hr]
  rw [isSome_readWeekday, standsAlone, weekdayHit, hbare, Bool.false_or, hend]

/-- The text starts with a weekday, and what follows may stand behind one. -/
def StartsWeekday : Text → Prop
  | [] => False
  | c :: r => Weekday.isKanji c = true ∧ mayEndWeekday r = true

/-- Some weekday of the text stands on its own. -/
def NamesWeekday : Option Char → Text → Prop
  | _, [] => False
  | before, c :: r =>
    (before.all mayPrecedeWeekday = true ∧ StartsWeekday (c :: r)) ∨ NamesWeekday (some c) r

theorem startsWeekday_kanji (d : Weekday) :
    StartsWeekday (d.kanji :: r) ↔ mayEndWeekday r = true := by
  simp [StartsWeekday, d.isKanji_kanji]

theorem namesWeekday_other (hc : Weekday.isKanji c = false) :
    NamesWeekday before (c :: r) ↔ NamesWeekday (some c) r := by
  simp [NamesWeekday, StartsWeekday, hc]

theorem namesWeekday_kanji (d : Weekday) :
    NamesWeekday before (d.kanji :: r) ↔
      (before.all mayPrecedeWeekday = true ∧ mayEndWeekday r = true) ∨
        NamesWeekday (some d.kanji) r := by
  rw [NamesWeekday, startsWeekday_kanji]

theorem namesWeekday_behind (hc : mayPrecedeWeekday c = false) :
    NamesWeekday (some c) (x :: r) ↔ NamesWeekday (some x) r := by
  simp [NamesWeekday, hc]

/-- The `日` of an ending does not stand on its own. -/
theorem namesWeekday_ending :
    NamesWeekday before ('曜' :: '日' :: r) ↔ NamesWeekday (some '日') r := by
  rw [namesWeekday_other rfl, namesWeekday_behind rfl]

/-- The scan reads a weekday exactly if one stands on its own. -/
theorem WeekdayScan.exists_read_iff (hscan : WeekdayScan before t pieces) :
    (∃ piece ∈ pieces, (readPiece DayToken.readWeekday piece).isSome = true) ↔
      NamesWeekday before t := by
  induction hscan with
  | nil => simp [NamesWeekday]
  | other hc htail ih =>
    rw [namesWeekday_other hc, ← ih]
    simp [readPiece]
  | long d htail ih =>
    rw [namesWeekday_kanji, namesWeekday_ending, ← ih]
    simp [readPiece, isSome_readWeekday_spelled, mayEndWeekday]
  | short d hr htail ih =>
    rw [namesWeekday_kanji, namesWeekday_other rfl, ← ih]
    simp [readPiece, isSome_readWeekday_spelled, mayEndWeekday]
  | bare d hr htail ih =>
    rw [namesWeekday_kanji, ← ih]
    simp [readPiece, isSome_readWeekday_bare d hr]

/-- The pass for single weekdays reads nothing exactly if no weekday stands on its own. -/
theorem singleWeekdays_eq_nil_iff (t : Text) :
    (DayPass.singleWeekdays t).1 = [] ↔ ¬ NamesWeekday none t := by
  rw [← (weekdayScan_scan t).exists_read_iff]
  show ((Wording.oneWeekday.scan t).filterMap (readPiece DayToken.readWeekday)) = [] ↔ _
  simp [List.filterMap_eq_nil_iff]

/-! ## Which weekdays are left -/

/-- Right behind the short ending of a weekday that stands on its own, another weekday starts that
the ending keeps from standing on its own. -/
def OverlooksWeekday : Option Char → Text → Prop
  | _, [] => False
  | before, c :: r =>
    (before.all mayPrecedeWeekday = true ∧ Weekday.isKanji c = true ∧
      ∃ u, r = '曜' :: u ∧ u.head? ≠ some '日' ∧ StartsWeekday u) ∨
      OverlooksWeekday (some c) r

theorem overlooksWeekday_other (hc : Weekday.isKanji c = false) :
    OverlooksWeekday before (c :: r) ↔ OverlooksWeekday (some c) r := by
  simp [OverlooksWeekday, hc]

theorem overlooksWeekday_long (d : Weekday) :
    OverlooksWeekday before (d.kanji :: '曜' :: '日' :: r) ↔ OverlooksWeekday (some '日') r := by
  have hending : mayPrecedeWeekday '曜' = false := by decide
  have hkanji : Weekday.isKanji '曜' = false := by decide
  simp [OverlooksWeekday, hending, hkanji]

theorem overlooksWeekday_short (d : Weekday) (hr : r.head? ≠ some '日') :
    OverlooksWeekday before (d.kanji :: '曜' :: r) ↔
      (before.all mayPrecedeWeekday = true ∧ StartsWeekday r) ∨ OverlooksWeekday (some '曜') r := by
  have hkanji : Weekday.isKanji '曜' = false := by decide
  simp [OverlooksWeekday, hkanji, d.isKanji_kanji, hr]

theorem overlooksWeekday_bare (d : Weekday) (hr : r.head? ≠ some '曜') :
    OverlooksWeekday before (d.kanji :: r) ↔ OverlooksWeekday (some d.kanji) r := by
  have hnone (u : Text) : r ≠ '曜' :: u := fun h => hr (by rw [h]; rfl)
  simp [OverlooksWeekday, hnone]

/-- What is left of a text after the scan. -/
def leftOf (pieces : List Piece) : Text :=
  pieces.flatMap (leavePiece DayToken.readWeekday)

theorem leftOf_hit (before : Option Char) (h : Hit) (pieces : List Piece) :
    leftOf (.hit before h :: pieces) =
      (if (DayToken.readWeekday before h).isSome then [' '] else h.taken) ++ leftOf pieces := rfl

/-- The space in the place of a weekday may follow what the weekday may follow. -/
theorem WeekdayScan.mayEndWeekday_left (hscan : WeekdayScan before t pieces) :
    mayEndWeekday (leftOf pieces) = mayEndWeekday t := by
  have hkanji (d : Weekday) (r : Text) : mayEndWeekday (d.kanji :: r) = true := by
    simp [mayEndWeekday, mayFollowWeekday_kanji]
  have hhit {r : Text} (b : Option Char) (d : Weekday) (ending : Text) (ps : List Piece) :
      mayEndWeekday (leftOf (.hit b (weekdayHit d ending r) :: ps)) = true := by
    rw [leftOf_hit]
    split
    · rfl
    · exact hkanji d _
  cases hscan with
  | nil => rfl
  | other hc htail => rfl
  | long d htail => rw [hhit, hkanji]
  | short d hr htail => rw [hhit, hkanji]
  | bare d hr htail => rw [hhit, hkanji]

/-- **What the scan leaves standing on its own.** Something else may stand in front of what is left,
if a weekday may follow it wherever it may follow the character in the text. -/
theorem WeekdayScan.namesWeekday_left (hscan : WeekdayScan before t pieces)
    (hbefore : before.all mayPrecedeWeekday = true → before'.all mayPrecedeWeekday = true) :
    NamesWeekday before' (leftOf pieces) ↔
      OverlooksWeekday before t ∨ (before.all mayPrecedeWeekday = false ∧
        before'.all mayPrecedeWeekday = true ∧ StartsWeekday t) := by
  have hspace : mayPrecedeWeekday ' ' = true := by decide
  have hsunday : mayPrecedeWeekday '日' = true := by decide
  have hending : mayPrecedeWeekday '曜' = false := by decide
  induction hscan generalizing before' with
  | nil => simp [leftOf, NamesWeekday, OverlooksWeekday, StartsWeekday]
  | @other before c r pieces hc htail ih =>
    have hsame : NamesWeekday (some c) (leftOf pieces) ↔ OverlooksWeekday (some c) r := by
      grind
    have hleft : leftOf (.loose c :: pieces) = c :: leftOf pieces := rfl
    have hother : ¬ StartsWeekday (c :: r) := by simp [StartsWeekday, hc]
    rw [hleft, namesWeekday_other hc, overlooksWeekday_other hc, hsame]
    simp [hother]
  | @long before r pieces d htail ih =>
    have hsame (x : Char) (hx : mayPrecedeWeekday x = true) :
        NamesWeekday (some x) (leftOf pieces) ↔ OverlooksWeekday (some '日') r := by
      grind
    rw [leftOf_hit, isSome_readWeekday_spelled d (.inl rfl), overlooksWeekday_long,
      startsWeekday_kanji]
    split
    · next hb =>
      show NamesWeekday before' (' ' :: leftOf pieces) ↔ _
      rw [namesWeekday_other rfl, hsame ' ' hspace]
      simp [hb]
    · next hb =>
      show NamesWeekday before' (d.kanji :: '曜' :: '日' :: leftOf pieces) ↔ _
      rw [namesWeekday_kanji, namesWeekday_ending, hsame '日' hsunday]
      simp [hb, mayEndWeekday, or_comm]
  | @short before r pieces d hr htail ih =>
    have hsame : NamesWeekday (some '曜') (leftOf pieces) ↔ OverlooksWeekday (some '曜') r := by
      grind
    have hblank : NamesWeekday (some ' ') (leftOf pieces) ↔
        OverlooksWeekday (some '曜') r ∨ StartsWeekday r := by
      grind
    rw [leftOf_hit, isSome_readWeekday_spelled d (.inr rfl), overlooksWeekday_short d hr,
      startsWeekday_kanji]
    split
    · next hb =>
      show NamesWeekday before' (' ' :: leftOf pieces) ↔ _
      rw [namesWeekday_other rfl, hblank]
      simp [hb, or_comm]
    · next hb =>
      show NamesWeekday before' (d.kanji :: '曜' :: leftOf pieces) ↔ _
      rw [namesWeekday_kanji, namesWeekday_other rfl, hsame]
      simp [hb, mayEndWeekday, or_comm]
  | @bare before r pieces d hr htail ih =>
    have hkanji := mayPrecedeWeekday_kanji d
    have hsame (x : Char) (hx : mayPrecedeWeekday x = true) :
        NamesWeekday (some x) (leftOf pieces) ↔ OverlooksWeekday (some d.kanji) r := by
      grind
    rw [leftOf_hit, isSome_readWeekday_bare d hr, overlooksWeekday_bare d hr, startsWeekday_kanji]
    split
    · next hb =>
      show NamesWeekday before' (' ' :: leftOf pieces) ↔ _
      rw [Bool.and_eq_true] at hb
      rw [namesWeekday_other rfl, hsame ' ' hspace]
      simp [hb.1]
    · next hb =>
      show NamesWeekday before' (d.kanji :: leftOf pieces) ↔ _
      rw [namesWeekday_kanji, htail.mayEndWeekday_left, hsame _ hkanji]
      grind

/-- **What the pass for single weekdays leaves standing on its own.** -/
theorem namesWeekday_singleWeekdays (t : Text) :
    NamesWeekday none (DayPass.singleWeekdays t).2 ↔ OverlooksWeekday none t := by
  have hleft : NamesWeekday none (leftOf (Wording.oneWeekday.scan t)) ↔ _ :=
    (weekdayScan_scan t).namesWeekday_left id
  have hsome : ¬ Option.all mayPrecedeWeekday none = false := by decide
  exact hleft.trans (or_iff_left fun h => hsome h.1)

/-! ## The other passes over what is left -/

theorem NamesWeekday.append (ht : NamesWeekday (t.getLast?.or before) u) :
    NamesWeekday before (t ++ u) := by
  induction t generalizing before with
  | nil => exact ht
  | cons c t ih =>
    rw [Text.getLast?_cons_or] at ht
    exact .inr (ih ht)

theorem head_of_mem_hits_ending {h : Hit} (hh : h ∈ (opt Wording.weekdayEnding).hits before t)
    (hne : h.taken ≠ []) : t.head? = some '曜' := by
  have ht := taken_append_rest _ _ _ hh
  rcases List.mem_append.1 hh with hh | hh
  · rcases List.mem_append.1 hh with hh | hh
    · rw [← ht, taken_of_mem_hits_word hh]
      rfl
    · rw [← ht, taken_of_mem_hits_word hh]
      rfl
  · obtain rfl : h = .nothing t := List.mem_singleton.1 hh
    exact absurd rfl hne

/-- A range of weekdays starts with a weekday: an ending, a blank or the sign of a range follows. -/
theorem startsWeekday_of_mem_hits {h : Hit} (hh : h ∈ Wording.weekdayRange.hits before t) :
    StartsWeekday t := by
  obtain ⟨_, hgapped', _, -, -⟩ := mem_hits_seq.1 hh
  obtain ⟨_, hsigned', _, -, -⟩ := mem_hits_seq.1 hgapped'
  obtain ⟨_, hgap', sign, hsign, -⟩ := mem_hits_seq.1 hsigned'
  obtain ⟨_, hday, gap, hgap, rfl⟩ := mem_hits_seq.1 hgap'
  obtain ⟨_, hkanji, ending, hending, rfl⟩ := mem_hits_seq.1 hday
  obtain ⟨_, hone, rfl⟩ := mem_hits_keep.1 hkanji
  obtain ⟨x, r, rfl, hx, rfl⟩ := mem_hits_one.1 hone
  have hsigned : gap.rest = '~' :: sign.rest := by
    rw [← show sign.taken ++ sign.rest = gap.rest from taken_append_rest _ _ _ hsign,
      taken_of_mem_hits_word hsign]
    rfl
  have hgapped : gap.taken ++ gap.rest = ending.rest := taken_append_rest _ _ _ hgap
  have hr : ending.taken ++ ending.rest = r := taken_append_rest _ _ _ hending
  refine ⟨hx, ?_⟩
  by_cases hnone : ending.taken = []
  · rw [hnone, List.nil_append] at hr
    rw [← hr, ← hgapped, hsigned]
    cases hblank : gap.taken with
    | nil => rfl
    | cons c s =>
      have hc := isBlank_of_mem_taken hgap c (by simp [hblank])
      simp [mayEndWeekday, mayFollowWeekday, hc]
  · simp [mayEndWeekday, head_of_mem_hits_ending hending hnone]

theorem weekdayRanges_of_not_namesWeekday (ht : ¬ NamesWeekday none t) :
    DayPass.weekdayRanges t = ([], t) := by
  have hnone : (DayPass.weekdayRanges t).1 = [] := by
    rw [List.eq_nil_iff_forall_not_mem]
    intro mention hmention
    obtain ⟨b, h, hmem, hread⟩ := exists_hit_of_mem_extract hmention
    obtain ⟨s, rfl, rfl⟩ := exists_front_of_mem_scan hmem
    obtain ⟨hne, hh⟩ := mem_hits_of_mem_scanFrom hmem
    have hstands : standsAlone s.getLast? h = true := by
      by_contra hstands
      rw [if_neg hstands] at hread
      exact absurd hread (by simp)
    have hstarts := startsWeekday_of_mem_hits hh
    rw [standsAlone, Bool.and_eq_true] at hstands
    refine ht (NamesWeekday.append ?_)
    rw [Option.or_none]
    obtain ⟨c, r, hcr⟩ := List.exists_cons_of_ne_nil (l := h.taken ++ h.rest) (by simp [hne])
    rw [hcr] at hstarts ⊢
    exact .inl ⟨hstands.1, hstarts⟩
  exact Prod.ext hnone (extract_snd_of_fst_eq_nil hnone)

/-- The words of days other than weekdays. -/
def dayWords : List Pattern :=
  [Wording.exceptHolidays, Wording.onlySundaysAndHolidays, Wording.dayGroup, Wording.holiday]

/-- **A text without the other words is not about days exactly if no weekday stands on its own.** -/
theorem extractDays_eq_iff (hwords : ∀ p ∈ dayWords, p.occursIn t = false) :
    extractDays t = (none, t) ↔ ¬ NamesWeekday none t := by
  have hexcept : DayPass.always Wording.exceptHolidays .noHolidays t = ([], t) :=
    extract_of_occursIn_eq_false _ (hwords _ (by simp [dayWords]))
  have honly : DayPass.always Wording.onlySundaysAndHolidays .sundaysAndHolidays t = ([], t) :=
    extract_of_occursIn_eq_false _ (hwords _ (by simp [dayWords]))
  have hgroups : DayPass.groups t = ([], t) :=
    extract_of_occursIn_eq_false _ (hwords _ (by simp [dayWords]))
  have hholiday : DayPass.always Wording.holiday .holidays t = ([], t) :=
    extract_of_occursIn_eq_false _ (hwords _ (by simp [dayWords]))
  have hnone (mentions : List DayMention) :
      DayScope.ofMentions? mentions = none ↔ mentions = [] := by
    simp [DayScope.ofMentions?]
  rw [← singleWeekdays_eq_nil_iff]
  simp only [extractDays, dayPasses, readDays, hexcept, honly, hgroups, hholiday, List.nil_append,
    List.append_nil, Prod.mk.injEq, hnone, List.append_eq_nil_iff]
  constructor
  · rintro ⟨⟨hranges, hsingles⟩, -⟩
    have hrest : (DayPass.weekdayRanges t).2 = t := extract_snd_of_fst_eq_nil hranges
    rwa [hrest] at hsingles
  · intro hsingles
    have hranges := weekdayRanges_of_not_namesWeekday ((singleWeekdays_eq_nil_iff t).1 hsingles)
    have hleft : (DayPass.singleWeekdays t).2 = t := extract_snd_of_fst_eq_nil hsingles
    rw [hranges]
    exact ⟨⟨rfl, hsingles⟩, hleft⟩

/-! ## Reading what is left -/

/-- The text that the passes in front of the one for single weekdays leave. -/
def beforeSingleWeekdays (t : Text) : Text :=
  (readDays (dayPasses.take 5) t).2

theorem readDays_append (passes passes' : List DayPass) (t : Text) :
    (readDays (passes ++ passes') t).2 = (readDays passes' (readDays passes t).2).2 := by
  induction passes generalizing t with
  | nil => rfl
  | cons pass passes ih => exact ih (pass t).2

theorem thinned_readDays {passes : List DayPass} (hpasses : passes ⊆ dayPasses) (t : Text) :
    Thinned t (readDays passes t).2 := by
  have hpass (pass : DayPass) (hmem : pass ∈ dayPasses) (t : Text) : Thinned t (pass t).2 := by
    simp only [dayPasses, List.mem_cons, List.not_mem_nil, or_false] at hmem
    rcases hmem with rfl | rfl | rfl | rfl | rfl | rfl <;> exact thinned_extract _ _ t
  induction passes generalizing t with
  | nil => exact thinned_of_stretch List.infix_rfl
  | cons pass passes ih =>
    obtain ⟨hmem, hsub⟩ := List.cons_subset.1 hpasses
    exact (hpass pass hmem t).trans (ih hsub _)

/-- What a pass blanks out is not there after the passes behind it. -/
theorem occursIn_readDays {p : Pattern} {read : Option Char → Hit → Option DayMention}
    (hp : p.isPlain = true) (hspace : p.refuses ' ' = true)
    (hread : ∀ b h, (read b h).isSome = true) (earlier : List DayPass) {later : List DayPass}
    (hpasses : dayPasses = earlier ++ p.extract read :: later) (t : Text) :
    p.occursIn (extractDays t).2 = false := by
  have hlater : later ⊆ dayPasses := by
    rw [hpasses]
    exact fun pass hpass => List.mem_append_right _ (List.mem_cons_of_mem _ hpass)
  have hleft : (extractDays t).2 =
      (readDays later ((p.extract read (readDays earlier t).2).2)).2 := by
    show (readDays dayPasses t).2 = _
    rw [hpasses, readDays_append]
    rfl
  rw [hleft, extract_snd_of_isSome hread]
  exact (thinned_readDays hlater _).occursIn_eq_false hp hspace (occursIn_blankOut hp hspace _)

/-- No word of days but weekdays is left. -/
theorem occursIn_extractDays (t : Text) : ∀ p ∈ dayWords, p.occursIn (extractDays t).2 = false := by
  intro p hp
  simp only [dayWords, List.mem_cons, List.not_mem_nil, or_false] at hp
  rcases hp with rfl | rfl | rfl | rfl
  · exact occursIn_readDays (by decide) (by decide) (fun _ _ => rfl) [] rfl t
  · exact occursIn_readDays (by decide) (by decide) (fun _ _ => rfl) (dayPasses.take 1) rfl t
  · exact occursIn_readDays (by decide) (by decide) (fun _ _ => rfl) (dayPasses.take 2) rfl t
  · exact occursIn_readDays (by decide) (by decide) (fun _ _ => rfl) (dayPasses.take 3) rfl t

/-- **What is left is not about days exactly if no weekday has been overlooked.** -/
theorem extractDays_left_iff (t : Text) :
    extractDays (extractDays t).2 = (none, (extractDays t).2) ↔
      ¬ OverlooksWeekday none (beforeSingleWeekdays t) := by
  rw [extractDays_eq_iff (occursIn_extractDays t), ← namesWeekday_singleWeekdays]
  rfl

/-- Behind `月曜` the weekday of `火` is overlooked, and it is read in what is left. -/
theorem tuesday_overlooked_behind_monday :
    extractDays (extractDays "月曜火".toList).2 ≠ (none, (extractDays "月曜火".toList).2) := by
  decide

end OpeningHours
