import NibbleAsm.Text.Ligature
import NibbleAsm.Text.Picture
import NibbleAsm.Text.CharSet

/-! The columns that a text takes in a terminal: the sum of what each character adds before the
text that follows it. A control character, a tab too, takes one column; a character of ambiguous
width takes one. Ligatures and pictures take the columns of one character, and a selector after a
character with two forms gives it one column or two. -/

namespace NibbleAsm.Text

/-- The columns of a character that stands alone. U+17A4 is drawn as two signs and U+17D8 as
three. -/
def charWidth (c : Char) : Nat :=
  if c.toNat ≤ 0xA0 then 1
  else if c = '\u17A4' then 2
  else if c = '\u17D8' then 3
  else if zeroWidth.contains c then 0
  else if wide.contains c then 2
  else 1

/-- The characters that can end a ligature or a picture; the first class that a character is in
counts. -/
def openings : List (CharSet × Opening) :=
  [(alef, .ligature .alef false),
   (hebrewLamed, .ligature .lamed false),
   (coengLetters, .ligature .coengLetter false),
   (bugineseYa, .ligature .ya false),
   (tifinaghConsonants, .ligature .consonant false),
   (lisuSecondTones, .ligature .tone false),
   (orkhonI, .ligature .orkhonI false),
   (regionalIndicators, .picture (.indicators 1)),
   (modifiers, .picture .skinTone),
   (emojiPresentation, .picture .whole)]

namespace Opening

def ofChar (c : Char) : Opening :=
  ((openings.find? (·.1.contains c)).map (·.2)).getD .plain

def advance? : Opening → Char → Option Advance
  | .plain, _ => none
  | .ligature ending joined, c => ending.advance? joined c
  | .picture ending, c => ending.advance? c

/-- Whether a picture that a selector asks for before it is joined to it. -/
def joinsPicture (o : Opening) : Bool :=
  o = .picture .joined || o = .picture .keycap

/-- What is left of an opening behind a selector: a selector breaks no ligature. -/
def behindSelector : Opening → Opening
  | .ligature ending joined => .ligature ending joined
  | _ => .plain

end Opening

inductive Selector where
  | text
  | picture
deriving DecidableEq, Repr

def Selector.ofChar? (c : Char) : Option Selector :=
  if c = '\uFE0E' then some .text else if c = '\uFE0F' then some .picture else none

/-- What stands after a character: perhaps a selector, and behind it an opening. -/
structure Context where
  selector : Option Selector
  opening : Opening
deriving DecidableEq, Repr

namespace Context

def ending : Context where
  selector := none
  opening := .plain

/-- The opening that a character without two forms stands before. -/
def settled (k : Context) : Opening :=
  if k.selector.isSome then k.opening.behindSelector else k.opening

/-- What a selector makes of the opening after it. A picture stays joined to the one before if that
is asked for as a picture too. -/
def select (s : Selector) (o : Opening) : Context where
  selector := some s
  opening := if s = .picture ∧ o.joinsPicture then o else o.behindSelector

/-- How a selector shows the character before it, if it has a form to select. -/
def selected? (k : Context) (c : Char) : Option Advance :=
  match k.selector with
  | some .picture =>
    if twoForms.contains c then some ⟨if k.opening.joinsPicture then 0 else 2, .picture .whole⟩
    else none
  | some .text =>
    if twoForms.contains c ∧ emojiPresentation.contains c ∧ ¬enclosedIdeographs.contains c then
      some ⟨1, .plain⟩
    else none
  | none => none

def advance (k : Context) (c : Char) : Advance :=
  match k.selected? c with
  | some a => a
  | none =>
    if c.toNat ≤ 0xA0 then ⟨1, .plain⟩
    else (k.settled.advance? c).getD ⟨charWidth c, .ofChar c⟩

end Context

def prepend (c : Char) (after : Int × Context) : Int × Context :=
  match Selector.ofChar? c with
  | some s => (after.1, .select s after.2.settled)
  | none =>
    let a := after.2.advance c
    (a.columns + after.1, ⟨none, a.opening⟩)

/-- The columns of a text. No character takes back more than what it joins has added. -/
def width (text : List Char) : Nat :=
  (text.foldr prepend (0, .ending)).1.toNat

end NibbleAsm.Text
