import OpeningHours.Text.Basic

/-!
# What is left of a fragment

Once the qualifiers of a fragment have been read and blanked out, what is left is either filler
(particles, punctuation, a bare suffix) or says something that is not understood. In the second case
it is kept as a note: trimmed of list punctuation at its ends and with single spaces inside.
-/

namespace OpeningHours.Text

/-- The words and characters that say nothing by themselves, in the order of their removal. -/
def fillers : List Text :=
  ["及び", "および", "ならびに", "のみ", "毎週", "曜日", "は", "と", "の", "・", "、", "。", ",",
    "/", ":", ";", "(", ")", "[", "]", "「", "」", "【", "】", "&", "-", "~", "※", " "].map
    String.toList

/-- The text without fillers. They are removed one after another, so the removal of one may join
the characters of the next. -/
def withoutFillers (t : Text) : Text :=
  fillers.foldl (fun rest w => remove w rest) t

/-- Whether the character is trimmed off the ends of a note. -/
def isNoteMargin (c : Char) : Bool :=
  isBlank c || c == ',' || c == '/' || c == '、' || c == '・' || c == ':' || c == ';' || c == '。'

/-- The note that the rest of a fragment makes, if it says anything. -/
def remainder? (t : Text) : Option Text :=
  if isAllBlank (withoutFillers t) then none
  else some (collapseBlanks (trimBy isNoteMargin t))

end OpeningHours.Text
