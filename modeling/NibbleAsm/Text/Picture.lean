import NibbleAsm.Text.Emoji
import NibbleAsm.Text.Opening

/-! Pictures that several characters make: they take the two columns of the last one, whichever way
they are joined. -/

namespace NibbleAsm.Text.PictureEnd

def keycapSign : Char := '\u20E3'

/-- Whether the joiner can stand before it. A single regional indicator is no picture. -/
def isPicture : PictureEnd → Bool
  | .whole => true
  | .skinTone => true
  | .indicators count => 2 ≤ count
  | .joinedIndicators count => 2 ≤ count
  | _ => false

def joinedAdvance? (c : Char) : Option Advance :=
  if c = keycapSign then some ⟨0, .picture .keycap⟩
  else if regionalIndicators.contains c then some ⟨1, .picture (.joinedIndicators 1)⟩
  else if modifiers.contains c then some ⟨0, .picture .skinTone⟩
  else if tagEnd.contains c then some ⟨0, .picture (.joinedTag 0 0)⟩
  else if emojiPresentation.contains c then some ⟨0, .picture .whole⟩
  else none

/-- A flag tag read from its end: three to six letters, or three digits and up to four letters. -/
def tagAdvance? (digits letters : Nat) (c : Char) : Option Advance :=
  if tagLetters.contains c ∧ digits = 0 ∧ letters < 6 then
    some ⟨0, .picture (.joinedTag 0 (letters + 1))⟩
  else if tagDigits.contains c ∧ digits < 3 ∧ letters ≤ 4 then
    some ⟨0, .picture (.joinedTag (digits + 1) letters)⟩
  else if blackFlag.contains c ∧ (digits = 3 ∨ digits = 0 ∧ 3 ≤ letters) then
    some ⟨0, .picture .whole⟩
  else none

/-- How a character goes on with a picture that stands after it. Regional indicators pair from the
left, so only a run of even length is joined as a whole to a picture after it: of one of odd length,
the last stands alone with its column, and the picture keeps its two. -/
def advance? (ending : PictureEnd) (c : Char) : Option Advance :=
  if c = joiner ∧ ending.isPicture then some ⟨0, .picture .joined⟩
  else
    match ending with
    | .skinTone => if modifierBases.contains c then some ⟨0, .picture .whole⟩ else none
    | .indicators count =>
      if regionalIndicators.contains c then some ⟨1, .picture (.indicators (count + 1))⟩ else none
    | .joinedIndicators count =>
      if regionalIndicators.contains c then
        some ⟨if count % 2 = 1 then -1 else 3, .picture (.joinedIndicators (count + 1))⟩
      else none
    | .joined => joinedAdvance? c
    | .joinedTag digits letters => tagAdvance? digits letters c
    | _ => none

end NibbleAsm.Text.PictureEnd
