import Mathlib.Data.List.Basic
import OpeningHours.Hours.Segment
import OpeningHours.Proofs.Pattern.Digits
import OpeningHours.Proofs.Scope.MonthText

/-!
# Ranges of clock times as they are written

`ColonRange` is a range of the form `9:00~17:30`. It is read where it stands (`prefers_timeRange`),
and the hit names the window between the two times if both exist (`window?_hit`). What stands in
front of a range is passed over if it holds no digits, or if its numerals are months
(`MonthSpan.skips_timeRange`).
-/

namespace OpeningHours

open Pattern

/-- A range between two clock times with colons, as it is written. -/
structure ColonRange where
  start : ColonTime
  finish : ColonTime

namespace ColonTime

/-- The time that is meant, and whether it belongs to the following day. -/
def time? (t : ColonTime) : Option (ClockTime × Bool) :=
  ClockTime.ofWritten? t.hour.value t.minute

/-- A clock time starts with a digit. -/
theorem exists_digit (t : ColonTime) (rest : Text) :
    ∃ (d : Digit) (r : Text), t.text ++ rest = d.char :: r := by
  obtain ⟨n, d, e⟩ := t
  cases n with
  | one c => exact ⟨c, _, rfl⟩
  | two c c' => exact ⟨c, _, rfl⟩

end ColonTime

namespace ColonRange

/-- The range as it is written. -/
def text (r : ColonRange) : Text :=
  r.start.text ++ '~' :: r.finish.text

/-- The window between the two times, if both exist. -/
def window? (r : ColonRange) : Option TimeWindow := do
  let (start, _) ← r.start.time?
  let (finish, nextDay) ← r.finish.time?
  let w := TimeWindow.between start (some finish)
  return { w with crossesMidnight := w.crossesMidnight || nextDay }

/-- The hit of a range in front of a rest. -/
def hit (r : ColonRange) (rest : Text) : Hit :=
  ⟨r.text,
    [(5, [r.finish.tens.char, r.finish.units.char]), (4, r.finish.hour.text),
      (2, [r.start.tens.char, r.start.units.char]), (1, r.start.hour.text)],
    rest⟩

/-! ## The range is read -/

/-- **A range is read where it stands**, unless `まで` follows. -/
theorem prefers_timeRange (r : ColonRange) {rest : Text} (hrest : (word "まで").Fails rest) :
    Wording.timeRange.Prefers (r.text ++ rest) (r.hit rest) := by
  obtain ⟨d, u, hd⟩ := r.finish.exists_digit rest
  have hstart := r.start.prefers_clock Wording.startSlots ('~' :: (r.finish.text ++ rest))
  have hgap : blanks.Prefers ('~' :: (r.finish.text ++ rest)) _ := prefers_blanks_nothing rfl
  have htilde : (anyWord ["~", "-", "から"]).Prefers ('~' :: (r.finish.text ++ rest)) _ :=
    (prefers_word "~" (r.finish.text ++ rest)).alt_left _
  have hnoBlank : blanks.Prefers (r.finish.text ++ rest) (.nothing (r.finish.text ++ rest)) := by
    rw [hd]
    exact (fails_of_digit (p := one Text.isBlank) (by decide) rfl d u).star
  have hsunset : (keep Wording.sunsetSlot (word "日没" ||| (word "日の入" ++ opt (word "り"))) ++
      opt (word "まで")).Fails (r.finish.text ++ rest) := by
    rw [hd]
    exact fails_of_digit (by decide) rfl d u
  have hnextDay : (opt (keep Wording.nextDaySlot
      ((word "翌" ++ opt (word "日")) ||| anyWord ["深夜", "夜中"]))).Prefers
        (r.finish.text ++ rest) (.nothing (r.finish.text ++ rest)) := by
    rw [hd]
    exact (fails_of_digit (by decide) rfl d u).opt
  have hfinish := r.finish.prefers_clock Wording.finishSlots rest
  have hend := ((hnextDay.seq hnoBlank).seq hfinish).seq hrest.opt
  have hrange := (((hstart.seq hgap).seq htilde).seq hnoBlank).seq (hend.alt_right hsunset)
  have htext : r.text ++ rest = r.start.text ++ '~' :: (r.finish.text ++ rest) := by
    rw [text, List.append_assoc, List.cons_append]
  have htaken : r.text =
      r.start.text ++ [] ++ ['~'] ++ [] ++ ([] ++ [] ++ r.finish.text ++ []) := by
    simp [text]
  rw [htext, hit, htaken]
  exact hrange

/-- The hit of a range names the window between its times. -/
theorem window?_hit (r : ColonRange) (rest : Text) : (r.hit rest).window? = r.window? := by
  have hminute (t : ColonTime) : Decimal.value [t.tens.char, t.units.char] = t.minute := by
    simp [Decimal.value, Decimal.valueFrom, ColonTime.minute]
  have hstart : (r.hit rest).clock? Wording.startSlots = r.start.time? := by
    simp [hit, Hit.clock?, Hit.clockMinute, Hit.number?, Hit.part?, Wording.startSlots,
      List.lookup_cons, hminute, ColonTime.time?]
  have hfinish : (r.hit rest).clock? Wording.finishSlots = r.finish.time? := by
    simp [hit, Hit.clock?, Hit.clockMinute, Hit.number?, Hit.part?, Wording.finishSlots,
      List.lookup_cons, hminute, ColonTime.time?]
  have hsunset : (r.hit rest).has Wording.sunsetSlot = false := rfl
  have hnextDay : (r.hit rest).has Wording.nextDaySlot = false := rfl
  simp [Hit.window?, window?, hstart, hfinish, hsunset, hnextDay]

end ColonRange

/-! ## Months are passed over -/

theorem mayStart_timeRange (c : Char) : Wording.timeRange.mayStart c = c.isDigit := by
  simp [Wording.timeRange, Wording.clock]

/-- The number of a month starts no range. -/
theorem fails_timeRange_month (n : ShortNumeral) (rest : Text) :
    Wording.timeRange.Fails (n.text ++ '月' :: rest) := by
  have hclock : (Wording.clock Wording.startSlots).Fails (n.text ++ '月' :: rest) := by
    refine fails_digits_seq _ rfl (fails_of_mayStart (by decide) rfl rest) fun e => ?_
    exact fails_of_digit (by decide) rfl e ('月' :: rest)
  exact (((hclock.seq_left _).seq_left _).seq_left _).seq_left _

theorem MonthSpan.skips_timeRange (s : MonthSpan) (rest : Text) :
    Wording.timeRange.Skips s.text rest := by
  have htext : s.text = s.first.text ++ (['月', '~'] ++ (s.last.text ++ ['月'])) := rfl
  rw [htext, skips_append, skips_append, skips_append]
  exact ⟨skips_numeral _ fun m => fails_timeRange_month m _, skips_of_all (by decide) _,
    skips_numeral _ fun m => fails_timeRange_month m _, skips_of_all (by decide) _⟩

end OpeningHours
