import Mathlib.Data.List.Chain
import OpeningHours.Proofs.Pattern.Alphabet
import OpeningHours.Proofs.Text.Silence
import OpeningHours.Scope.Days

/-!
# Lists of days as they are written

A list of days is a list of tokens: weekdays by their kanji or spelled out, the public holidays,
and marks between them. The passes over a text of such tokens read each token where it stands, as
long as no token but a mark stands behind the holidays (**`extractDays_texts`**), and leave marks
and spaces, which say nothing (`isSilent_left`).

The passes are taken one by one. Those for words that no token holds are mute over the characters
of the tokens; the pass for holidays and the pass for single weekdays go by induction on the tokens,
with the character in front of the token in hand.
-/

namespace OpeningHours

open Pattern

/-! ## Weekdays -/

namespace Weekday

/-- The kanji of a weekday. -/
def kanji : Weekday → Char
  | .mon => '月'
  | .tue => '火'
  | .wed => '水'
  | .thu => '木'
  | .fri => '金'
  | .sat => '土'
  | .sun => '日'

@[simp] theorem ofKanji?_kanji (d : Weekday) : ofKanji? d.kanji = some d := by
  cases d <;> rfl

end Weekday

/-! ## Tokens -/

/-- A part of a list of days. -/
inductive DayToken where
  | kanji (d : Weekday)
  | spelled (d : Weekday)
  | holiday
  | dot
  | comma
  | space
  deriving DecidableEq

namespace DayToken

/-- The token as it is written. -/
def text : DayToken → Text
  | kanji d => [d.kanji]
  | spelled d => [d.kanji, '曜', '日']
  | holiday => ['祝']
  | dot => ['・']
  | comma => ['、']
  | space => [' ']

/-- Whether the token stands between days. -/
def isMark : DayToken → Bool
  | kanji _ => false
  | spelled _ => false
  | holiday => false
  | dot => true
  | comma => true
  | space => true

/-- The weekday that the token names. -/
def weekday? : DayToken → Option Weekday
  | kanji d => some d
  | spelled d => some d
  | holiday => none
  | dot => none
  | comma => none
  | space => none

/-- What stands in the place of the token after the pass for holidays. -/
def blankHoliday : DayToken → DayToken
  | holiday => space
  | token => token

/-- What is left of the token in the end. -/
def left : DayToken → Text
  | kanji _ => [' ']
  | spelled _ => [' ']
  | holiday => [' ']
  | dot => ['・']
  | comma => ['、']
  | space => [' ']

/-- The tokens as they are written, one behind the other. -/
def texts (tokens : List DayToken) : Text :=
  tokens.flatMap text

/-- The weekdays that the tokens name. -/
def weekdays (tokens : List DayToken) : List Weekday :=
  tokens.filterMap weekday?

/-- Only a mark stands behind the holidays. -/
def HolidaysApart (tokens : List DayToken) : Prop :=
  tokens.IsChain fun a b => a = holiday → b.isMark = true

/-- The characters of the tokens. -/
def alphabet : List Char :=
  ['月', '火', '水', '木', '金', '土', '日', '曜', '祝', '・', '、', ' ']

variable {token : DayToken} {tokens : List DayToken}

theorem text_subset (token : DayToken) : token.text ⊆ alphabet := by
  cases token with
  | kanji d => cases d <;> decide
  | spelled d => cases d <;> decide
  | holiday => decide
  | dot => decide
  | comma => decide
  | space => decide

theorem texts_subset (tokens : List DayToken) : texts tokens ⊆ alphabet := by
  intro c hc
  obtain ⟨token, -, hc⟩ := List.mem_flatMap.1 hc
  exact token.text_subset hc

@[simp] theorem texts_nil : texts [] = [] := rfl

@[simp] theorem texts_cons (token : DayToken) (tokens : List DayToken) :
    texts (token :: tokens) = token.text ++ texts tokens := rfl

theorem texts_append (a b : List DayToken) : texts (a ++ b) = texts a ++ texts b :=
  List.flatMap_append

/-! ## In front of tokens -/

/-- The characters that tokens start with. -/
def firsts : List Char :=
  ['月', '火', '水', '木', '金', '土', '日', '祝', '・', '、', ' ']

theorem head_mem_firsts (token : DayToken) (rest : Text) :
    ∃ c r, token.text ++ rest = c :: r ∧ c ∈ firsts := by
  cases token with
  | kanji d => exact ⟨d.kanji, rest, rfl, by cases d <;> decide⟩
  | spelled d => exact ⟨d.kanji, _, rfl, by cases d <;> decide⟩
  | holiday => exact ⟨'祝', rest, rfl, by decide⟩
  | dot => exact ⟨'・', rest, rfl, by decide⟩
  | comma => exact ⟨'、', rest, rfl, by decide⟩
  | space => exact ⟨' ', rest, rfl, by decide⟩

/-- What starts like no token fails in front of tokens. -/
theorem fails_texts {p : Pattern} (hp : (firsts.all fun c => !p.mayStart c) = true)
    (he : p.mayBeEmpty = false) (tokens : List DayToken) : p.Fails (texts tokens) := by
  cases tokens with
  | nil => exact fails_nil he
  | cons token tokens =>
    obtain ⟨c, r, hcr, hc⟩ := token.head_mem_firsts (texts tokens)
    have hstart := List.all_eq_true.1 hp c hc
    rw [texts_cons, hcr]
    exact fails_of_mayStart (by simpa using hstart) he r

theorem mayFollowWeekday_head (tokens : List DayToken) :
    (texts tokens).head?.all mayFollowWeekday = true := by
  have hall : firsts.all mayFollowWeekday = true := by decide
  cases tokens with
  | nil => rfl
  | cons token tokens =>
    obtain ⟨c, r, hcr, hc⟩ := token.head_mem_firsts (texts tokens)
    rw [texts_cons, hcr]
    exact List.all_eq_true.1 hall c hc

/-! ## The pass for holidays -/

theorem prefers_holiday (hmark : ∀ token ∈ tokens.head?, token.isMark = true) :
    Wording.holiday.Prefers ('祝' :: texts tokens) ⟨['祝'], [], texts tokens⟩ := by
  have hword : ∀ w ∈ ["祝祭日", "祝休日", "祝日", "休日"],
      w.toList.isPrefixOf ('祝' :: texts tokens) = false := by
    cases tokens with
    | nil => decide
    | cons token tokens =>
      have := hmark token rfl
      cases token with
      | kanji d => simp [isMark] at this
      | spelled d => simp [isMark] at this
      | holiday => simp [isMark] at this
      | dot => simp [text, List.isPrefixOf]
      | comma => simp [text, List.isPrefixOf]
      | space => simp [text, List.isPrefixOf]
  have h := prefers_word "祝" (texts tokens)
  exact .alt_right (fails_word (hword _ (by decide))) (.alt_right (fails_word (hword _ (by decide)))
    (.alt_right (fails_word (hword _ (by decide)))
      (.alt_right (fails_word (hword _ (by decide))) h)))

/-- The pass for holidays reads the holidays and nothing else. -/
theorem reads_holidays (before : Option Char) (hapart : HolidaysApart tokens) :
    Wording.holiday.Reads (fun _ _ => some DayMention.holidays) before (texts tokens) []
      (List.replicate (tokens.count .holiday) .holidays) (texts (tokens.map blankHoliday)) := by
  induction tokens generalizing before with
  | nil => exact .nil
  | cons token tokens ih =>
    have htail := ih (token.text.getLast?.or before) hapart.tail
    by_cases hh : token = holiday
    · subst hh
      have hhit : Wording.holiday.Reads (fun _ _ => some DayMention.holidays) before ['祝']
          (texts tokens ++ []) [.holidays] [' '] := by
        rw [List.append_nil]
        exact .of_hit (by decide) (prefers_holiday fun next hnext =>
          (List.isChain_cons.1 hapart).1 next hnext rfl) rfl
      rw [List.count_cons_self, List.replicate_succ]
      exact hhit.append htail
    · have hskip : Wording.holiday.Skips token.text (texts tokens ++ []) := by
        apply skips_of_all
        cases token with
        | kanji d => cases d <;> decide
        | spelled d => cases d <;> decide
        | holiday => exact absurd rfl hh
        | dot => decide
        | comma => decide
        | space => decide
      have hblank : token.blankHoliday = token := by
        cases token <;> first | rfl | exact absurd rfl hh
      rw [List.count_cons_of_ne hh, List.map_cons, hblank]
      exact (Reads.of_skips hskip).append htail

/-! ## The pass for single weekdays -/

/-- What the pass for single weekdays reads of a hit. -/
def readWeekday (before : Option Char) (h : Hit) : Option DayMention :=
  if standsAlone before h then (h.weekday? 1).map fun day => .weekdays (.single day) else none

theorem prefers_kanji (d : Weekday) (tokens : List DayToken) :
    Wording.oneWeekday.Prefers (d.kanji :: texts tokens)
      ⟨[d.kanji], [(1, [d.kanji])], texts tokens⟩ := by
  have hkanji : (keep 1 (one Weekday.isKanji)).Prefers (d.kanji :: texts tokens) _ :=
    (prefers_one (by simp [Weekday.isKanji]) (texts tokens)).keep 1
  have hending : Wording.weekdayEnding.Fails (texts tokens) := fails_texts (by decide) rfl tokens
  exact hkanji.seq hending.opt

theorem prefers_spelled (d : Weekday) (rest : Text) :
    Wording.oneWeekday.Prefers (d.kanji :: '曜' :: '日' :: rest)
      ⟨[d.kanji, '曜', '日'], [(1, [d.kanji])], rest⟩ := by
  have hkanji : (keep 1 (one Weekday.isKanji)).Prefers (d.kanji :: '曜' :: '日' :: rest) _ :=
    (prefers_one (by simp [Weekday.isKanji]) ('曜' :: '日' :: rest)).keep 1
  have hending : Wording.weekdayEnding.Prefers ('曜' :: '日' :: rest) _ :=
    (prefers_word "曜日" rest).alt_left _
  exact hkanji.seq hending.opt

/-- The pass for single weekdays reads every weekday where it stands. -/
theorem reads_weekdays {before : Option Char} (hnone : ∀ token ∈ tokens, token ≠ holiday)
    (hbefore : before.all mayPrecedeWeekday = true) :
    Wording.oneWeekday.Reads readWeekday before (texts tokens) []
      ((weekdays tokens).map fun d => .weekdays (.single d)) (tokens.flatMap left) := by
  induction tokens generalizing before with
  | nil => exact .nil
  | cons token tokens ih =>
    have hafter : (token.text.getLast?.or before).all mayPrecedeWeekday = true := by
      cases token with
      | kanji d => cases d <;> rfl
      | spelled d => rfl
      | holiday => exact absurd rfl (hnone _ List.mem_cons_self)
      | dot => rfl
      | comma => rfl
      | space => rfl
    have htail := ih (fun t ht => hnone t (List.mem_cons_of_mem token ht)) hafter
    have hfollow := mayFollowWeekday_head tokens
    rw [texts_cons]
    cases token with
    | kanji d =>
      have hhit : Wording.oneWeekday.Reads readWeekday before [d.kanji] (texts tokens ++ [])
          [.weekdays (.single d)] [' '] := by
        rw [List.append_nil]
        refine .of_hit (by simp) (prefers_kanji d tokens) ?_
        simp [readWeekday, standsAlone, hbefore, hfollow, Hit.weekday?, Hit.part, Hit.part?]
      exact hhit.append htail
    | spelled d =>
      have hhit : Wording.oneWeekday.Reads readWeekday before [d.kanji, '曜', '日']
          (texts tokens ++ []) [.weekdays (.single d)] [' '] := by
        rw [List.append_nil]
        refine .of_hit (by simp) (prefers_spelled d (texts tokens)) ?_
        have hspelled : endsSpelledOut [d.kanji, '曜', '日'] = true := by
          cases d <;> decide
        simp [readWeekday, standsAlone, hbefore, hspelled, Hit.weekday?, Hit.part, Hit.part?]
      exact hhit.append htail
    | holiday => exact absurd rfl (hnone _ List.mem_cons_self)
    | dot => exact (Reads.of_skips (skips_of_all (by decide) _)).append htail
    | comma => exact (Reads.of_skips (skips_of_all (by decide) _)).append htail
    | space => exact (Reads.of_skips (skips_of_all (by decide) _)).append htail

/-! ## All passes -/

theorem weekdays_map_blankHoliday (tokens : List DayToken) :
    weekdays (tokens.map blankHoliday) = weekdays tokens := by
  rw [weekdays, weekdays, List.filterMap_map]
  congr 1
  funext token
  cases token <;> rfl

theorem left_map_blankHoliday (tokens : List DayToken) :
    (tokens.map blankHoliday).flatMap left = tokens.flatMap left := by
  rw [List.flatMap_map]
  congr 1
  funext token
  cases token <;> rfl

/-- **Tokens of days are read where they stand.** -/
theorem extractDays_texts (hapart : HolidaysApart tokens) :
    extractDays (texts tokens) =
      (DayScope.ofMentions? (List.replicate (tokens.count .holiday) .holidays ++
        (weekdays tokens).map fun d => .weekdays (.single d)), tokens.flatMap left) := by
  have hsub := texts_subset tokens
  have hexcept : Wording.exceptHolidays.isMuteOver alphabet = true := by decide
  have honly : Wording.onlySundaysAndHolidays.isMuteOver alphabet = true := by decide
  have hgroup : Wording.dayGroup.isMuteOver alphabet = true := by decide
  have hrange : Wording.weekdayRange.isMuteOver alphabet = true := by decide
  have hgroups : DayPass.groups (texts tokens) = ([], texts tokens) :=
    extract_of_isMuteOver _ hgroup hsub
  have hholidays := extract_of_reads (reads_holidays none hapart)
  have hranges : DayPass.weekdayRanges (texts (tokens.map blankHoliday)) =
      ([], texts (tokens.map blankHoliday)) :=
    extract_of_isMuteOver _ hrange (texts_subset _)
  have hnone : ∀ token ∈ tokens.map blankHoliday, token ≠ holiday := by
    intro token htoken
    obtain ⟨u, -, rfl⟩ := List.mem_map.1 htoken
    cases u <;> simp [blankHoliday]
  have hsingles : DayPass.singleWeekdays (texts (tokens.map blankHoliday)) = _ :=
    extract_of_reads (reads_weekdays hnone rfl)
  rw [weekdays_map_blankHoliday, left_map_blankHoliday] at hsingles
  simp only [extractDays, dayPasses, readDays, DayPass.always,
    extract_of_isMuteOver _ hexcept hsub, extract_of_isMuteOver _ honly hsub, hgroups, hholidays,
    hranges, hsingles, List.nil_append, List.append_nil]

/-- What is left of the tokens are marks and spaces. -/
theorem left_subset (tokens : List DayToken) : tokens.flatMap left ⊆ [' ', '・', '、'] := by
  intro c hc
  obtain ⟨token, -, hc⟩ := List.mem_flatMap.1 hc
  cases token <;> simp_all [left]

/-- What is left of the tokens says nothing. -/
theorem isSilent_left (tokens : List DayToken) : Text.isSilent (tokens.flatMap left) = true :=
  Text.isSilent_of_subset (by decide) (left_subset tokens)

end DayToken

end OpeningHours
