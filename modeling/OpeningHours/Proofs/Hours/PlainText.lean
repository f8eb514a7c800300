import Mathlib.Data.List.Basic
import OpeningHours.Hours.Reading
import OpeningHours.Proofs.Pattern.Alphabet
import OpeningHours.Proofs.Pattern.Digits
import OpeningHours.Proofs.Text.Pieces
import OpeningHours.Proofs.Text.Tidy

/-!
# Texts of ranges and their days

Most texts about opening times hold nothing but clock times, months and days. Over the characters of
such a text none of the wordings that settle a text as a whole can be matched, and neither can hotel
times, last admissions and words about closing. So a tidy text over `plainAlphabet` is its own
normal form and is read as its statements (**`ofText_of_plain`**).
-/

namespace OpeningHours

open Pattern

/-- The characters of clock times, months and lists of days. -/
def segmentAlphabet : List Char :=
  asciiDigits ++ [':', '~', '月', '火', '水', '木', '金', '土', '日', '祝', '・']

/-- The characters of segments, of other words for days, and of what joins segments. -/
def plainAlphabet : List Char :=
  segmentAlphabet ++ ['曜', ' ', '、', '\n', '平', '週', '末', '(', ')', 'を', '除', 'く']

variable {t : Text}

theorem closureMention_of_plain (ht : t ⊆ plainAlphabet) :
    Wording.closureMention.occursIn t = false :=
  occursIn_of_isMuteOver (by decide) ht

theorem extractLastAdmission_of_plain (ht : t ⊆ plainAlphabet) :
    extractLastAdmission t = (none, t) := by
  have hmute : Wording.lastAdmission.isMuteOver plainAlphabet = true := by decide
  rw [extractLastAdmission, extract_of_isMuteOver _ hmute ht]
  rfl

namespace OpeningTimes

theorem trimEndBy_subset (p : Char → Bool) (t : Text) : Text.trimEndBy p t ⊆ t := by
  intro c hc
  rw [← Text.trimEndBy_append p t]
  exact List.mem_append_left _ hc

theorem saysAroundTheClock_of_plain (ht : t ⊆ plainAlphabet) : saysAroundTheClock t = false := by
  have hmute : Wording.aroundTheClock.isMuteOver plainAlphabet = true := by decide
  rw [saysAroundTheClock, findAll_of_skips (skips_of_isMuteOver hmute ht)]
  rfl

theorem saysClosed_of_plain (ht : t ⊆ plainAlphabet) : saysClosed t = false := by
  have hbare :=
    List.Subset.trans (trimEndBy_subset (fun c => c == '。' || c == '.' || c == ' ') t) ht
  have hclosed : Wording.fullyClosed.isMuteOver plainAlphabet = true := by decide
  have hoccupied : Wording.alwaysOccupied.isMuteOver plainAlphabet = true := by decide
  rw [saysClosed, occursIn_of_isMuteOver hclosed hbare, occursIn_of_isMuteOver hoccupied hbare]
  rfl

theorem hotelTime?_of_isMuteOver {p : Pattern} (hp : p.isMuteOver plainAlphabet = true)
    (ht : t ⊆ plainAlphabet) : hotelTime? p t = none := by
  rw [hotelTime?, find?_eq_none_of_skips (skips_of_isMuteOver hp ht)]
  rfl

/-- **A text of ranges and their days is read as its statements.** -/
theorem ofText_of_plain (htidy : Text.Tidy t) (ht : t ⊆ plainAlphabet) :
    ofText (some t) =
      { raw := some t
        normalized := some t
        windows := (readStatements t).1
        isUnknown := (readStatements t).1.isEmpty
        notes := (readStatements t).2 } := by
  have hne : t.isEmpty = false := by simpa using htidy.ne_nil
  have hinquiry : Wording.inquiry.isMuteOver plainAlphabet = true := by decide
  have hreservation : Wording.reservation.isMuteOver plainAlphabet = true := by decide
  have hcheckIn : Wording.checkIn.isMuteOver plainAlphabet = true := by decide
  have hcheckOut : Wording.checkOut.isMuteOver plainAlphabet = true := by decide
  have hwithout : withoutHotelTimes t = t := by
    rw [withoutHotelTimes, blankOut_of_isMuteOver hcheckIn ht, blankOut_of_isMuteOver hcheckOut ht]
  simp [ofText, htidy.normalize, readNormal, hne, saysAroundTheClock_of_plain ht,
    saysClosed_of_plain ht, occursIn_of_isMuteOver hinquiry ht,
    occursIn_of_isMuteOver hreservation ht, hotelTime?_of_isMuteOver hcheckIn ht,
    hotelTime?_of_isMuteOver hcheckOut ht, isExplained, withStatements, hwithout]

/-- A text over characters none of which ends a statement or a segment is one segment. -/
theorem readStatements_of_no_mark {alphabet : List Char} (ht : t ⊆ alphabet)
    (hmark : alphabet.all (fun c => !isStatementMark c && !isSegmentMark c) = true)
    (hblank : Text.isAllBlank t = false) : readStatements t = readSegments {} [t] := by
  have hnone : ∀ c ∈ t, isStatementMark c = false ∧ isSegmentMark c = false := by
    intro c hc
    simpa using List.all_eq_true.1 hmark c (ht hc)
  have hstatement := Text.splitTopLevel_of_no_separator (fun c hc => (hnone c hc).1) hblank
  have hsegment := Text.splitTopLevel_of_no_separator (fun c hc => (hnone c hc).2) hblank
  rw [readStatements, hstatement, List.map_singleton, readStatement, hsegment,
    List.flatMap_singleton, List.flatMap_singleton]

end OpeningTimes

end OpeningHours
