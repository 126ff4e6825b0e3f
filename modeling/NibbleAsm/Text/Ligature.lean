import NibbleAsm.Text.Opening
import NibbleAsm.Text.ZeroWidth

/-! Ligatures of scripts: letters that take the columns of one. Marks that are not shown do not
break a ligature, and nor does the joiner, save in Arabic; an Arabic one holds across every mark
that its letters join across. -/

namespace NibbleAsm.Text

/-- Joining_Group is Lam. -/
def lam : CharSet where
  ranges :=
    [(0x0644, 0x0644), (0x06B5, 0x06B8), (0x076A, 0x076A), (0x08A6, 0x08A6), (0x08C7, 0x08C7)]

/-- Joining_Group is Alef. -/
def alef : CharSet where
  ranges :=
    [(0x0622, 0x0623), (0x0625, 0x0625), (0x0627, 0x0627), (0x0671, 0x0673), (0x0675, 0x0675),
     (0x0773, 0x0774), (0x0870, 0x0882)]

def hebrewAlef : CharSet where
  ranges := [(0x05D0, 0x05D0)]

def hebrewLamed : CharSet where
  ranges := [(0x05DC, 0x05DC)]

/-- The sign that puts a Khmer letter below the one before it. -/
def coeng : CharSet where
  ranges := [(0x17D2, 0x17D2)]

/-- The Khmer letters that take no column below another. -/
def coengLetters : CharSet where
  ranges :=
    [(0x1780, 0x1782), (0x1784, 0x1787), (0x1789, 0x178C), (0x178E, 0x1793), (0x1795, 0x1798),
     (0x179B, 0x179D), (0x17A0, 0x17A0), (0x17A2, 0x17A2), (0x17A7, 0x17A7), (0x17AB, 0x17AC),
     (0x17AF, 0x17AF)]

def bugineseA : CharSet where
  ranges := [(0x1A15, 0x1A15)]

def bugineseI : CharSet where
  ranges := [(0x1A17, 0x1A17)]

def bugineseYa : CharSet where
  ranges := [(0x1A10, 0x1A10)]

def tifinaghConsonants : CharSet where
  ranges := [(0x2D31, 0x2D65), (0x2D6F, 0x2D6F)]

/-- The sign that joins two Tifinagh consonants. It is shown where it joins nothing. -/
def tifinaghJoiner : CharSet where
  ranges := [(0x2D7F, 0x2D7F)]

def lisuFirstTones : CharSet where
  ranges := [(0xA4F8, 0xA4FB)]

def lisuSecondTones : CharSet where
  ranges := [(0xA4FC, 0xA4FD)]

def orkhonEc : CharSet where
  ranges := [(0x10C32, 0x10C32)]

def orkhonI : CharSet where
  ranges := [(0x10C03, 0x10C03)]

/-- A character of `before` goes on with a ligature, in some only if a joiner stands between. -/
structure LigatureRule where
  before : CharSet
  ending : LigatureEnd
  needsJoiner : Bool
  advance : Advance

/-- What is complete opens as plain text: a letter is in one ligature at most. The letter below
another and the sign between two consonants give their column back. -/
def ligatureRules : List LigatureRule :=
  [⟨lam, .alef, false, 0, .plain⟩,
   ⟨hebrewAlef, .lamed, true, 0, .plain⟩,
   ⟨coeng, .coengLetter, false, -1, .plain⟩,
   ⟨bugineseI, .ya, true, 0, .ligature .iYa false⟩,
   ⟨bugineseA, .iYa, false, 0, .plain⟩,
   ⟨tifinaghJoiner, .consonant, false, 1, .ligature .markedConsonant false⟩,
   ⟨tifinaghConsonants, .consonant, true, 0, .plain⟩,
   ⟨tifinaghConsonants, .markedConsonant, false, -1, .plain⟩,
   ⟨lisuFirstTones, .tone, false, 0, .plain⟩,
   ⟨orkhonEc, .orkhonI, true, 0, .plain⟩]

namespace LigatureEnd

/-- Whether a ligature holds across a character. -/
def passesOver (ending : LigatureEnd) (c : Char) : Bool :=
  if ending = .alef then zeroWidth.contains c && !joiningBarriers.contains c
  else c = joiner || hiddenMarks.contains c

def advance? (ending : LigatureEnd) (joined : Bool) (c : Char) : Option Advance :=
  if ending.passesOver c then some ⟨0, .ligature ending (joined || c = joiner)⟩
  else
    (ligatureRules.find? fun r =>
      r.ending = ending && r.before.contains c && (joined || !r.needsJoiner)).map (·.advance)

end LigatureEnd

end NibbleAsm.Text
