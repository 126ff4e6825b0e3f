/-! Numerals: a radix and digits, most significant first. A numeral has one value, `value`, which no
width bounds. Two readings of it have a width: `lowByte` keeps the eight low bits of the value, and
`word?` is the value where it fits in sixty-four bits. -/

namespace NibbleAsm

def digitValue? (c : Char) : Option Nat :=
  if '0' ≤ c ∧ c ≤ '9' then some (c.toNat - '0'.toNat)
  else if 'a' ≤ c ∧ c ≤ 'f' then some (c.toNat - 'a'.toNat + 10)
  else if 'A' ≤ c ∧ c ≤ 'F' then some (c.toNat - 'A'.toNat + 10)
  else none

def isDigitIn (radix : Nat) (c : Char) : Bool :=
  (digitValue? c).any (· < radix)

structure Numeral where
  radix : Nat
  digits : List Nat
deriving DecidableEq, Repr

namespace Numeral

/-- The numeral spelled by a text of digits, one at least, each below the radix. -/
def ofDigits? (radix : Nat) (s : List Char) : Option Numeral :=
  if s ≠ [] ∧ s.all (isDigitIn radix) then some ⟨radix, s.filterMap digitValue?⟩ else none

def value (n : Numeral) : Nat :=
  n.digits.foldl (fun acc d => acc * n.radix + d) 0

/-- The eight low bits of the value, in arithmetic that wraps at a byte. -/
def lowByte (n : Numeral) : UInt8 :=
  n.digits.foldl (fun acc d => acc * UInt8.ofNat n.radix + UInt8.ofNat d) 0

def wordBound : Nat :=
  0x1_0000_0000_0000_0000

/-- The value, digit by digit, given up as soon as it no longer fits in a word. -/
def word? (n : Numeral) : Option Nat :=
  n.digits.foldlM
    (fun acc d =>
      let next := acc * n.radix + d
      if next < wordBound then some next else none)
    0

/-- Reads a number. After `0x` or `0X` the digits are in base sixteen; digits `0` to `9` alone are
in base ten; other digits of base sixteen need no mark where `bare` admits their count. -/
def read? (bare : Nat → Bool) : List Char → Option Numeral
  | '0' :: 'x' :: s => ofDigits? 16 s
  | '0' :: 'X' :: s => ofDigits? 16 s
  | s => (ofDigits? 10 s).or (if bare s.length then ofDigits? 16 s else none)

end Numeral

end NibbleAsm
