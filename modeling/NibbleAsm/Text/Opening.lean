/-! What a text opens with, as far as the columns of a character before it depend on that. A text
is measured from its end, so a ligature or a picture is met by its last character first. -/

namespace NibbleAsm.Text

inductive LigatureEnd where
  /-- Arabic: an alef, which a lam before it takes in. -/
  | alef
  /-- Hebrew: a lamed. -/
  | lamed
  /-- Khmer: a letter that can stand below another. -/
  | coengLetter
  /-- Buginese: a ya. -/
  | ya
  /-- Buginese: the vowel i, joined to a ya. -/
  | iYa
  /-- Tifinagh: a consonant. -/
  | consonant
  /-- Tifinagh: the sign that joins consonants, and a consonant. -/
  | markedConsonant
  /-- Lisu: a tone that can follow another. -/
  | tone
  /-- Old Turkic: an i of Orkhon. -/
  | orkhonI
deriving DecidableEq, Repr

/-- The end of a picture that several characters may make. -/
inductive PictureEnd where
  /-- All of a picture. -/
  | whole
  | skinTone
  /-- That many regional indicators. -/
  | indicators (count : Nat)
  /-- The joiner and a picture. -/
  | joined
  /-- The sign of a key, the joiner and a picture. -/
  | keycap
  /-- That many regional indicators, the joiner and a picture. -/
  | joinedIndicators (count : Nat)
  /-- That many digits and then letters of a tag, its end, the joiner and a picture. -/
  | joinedTag (digits letters : Nat)
deriving DecidableEq, Repr

/-- What a text opens with. A ligature is `joined` if a joiner stands at its front. -/
inductive Opening where
  | plain
  | ligature (ending : LigatureEnd) (joined : Bool)
  | picture (ending : PictureEnd)
deriving DecidableEq, Repr

/-- The columns that a character adds to the text after it, and what the text opens with then. A
character can take back a column of what it joins. -/
structure Advance where
  columns : Int
  opening : Opening
deriving DecidableEq, Repr

def joiner : Char := '\u200D'

end NibbleAsm.Text
