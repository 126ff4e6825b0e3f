import NibbleAsm.Numeral
import NibbleAsm.Text.Words

/-! What a single token can stand for: a literal byte where an instruction could stand, the byte
that follows an immediate opcode, or the operand of a packed opcode. The three differ only in
which spellings they take and in what they do with a large value. -/

namespace NibbleAsm

abbrev Token := String

namespace Token

def isHexPair (s : List Char) : Bool :=
  s.length == 2 && s.all (isDigitIn 16)

def isDecimal (s : List Char) : Bool :=
  !s.isEmpty && s.all (isDigitIn 10)

/-- A mark for base sixteen or none, then exactly two digits; or digits of base ten alone. -/
def isLiteralByte (t : Token) : Bool :=
  match t.toList with
  | '0' :: 'x' :: s => isHexPair s
  | '0' :: 'X' :: s => isHexPair s
  | s => isHexPair s || isDecimal s

inductive NumberError where
  | malformed
  | tooLarge
deriving DecidableEq, Repr

/-- The byte a token stands for, blanks around it ignored. Two digits of base sixteen need no mark;
a value wider than a byte keeps its low bits. -/
def byte (t : Token) : Except NumberError UInt8 :=
  match Numeral.read? (· == 2) (Text.trim Text.isBlank t.toList) with
  | none => .error .malformed
  | some n => .ok n.lowByte

/-- The number a token stands for as an operand. One or two digits of base sixteen need no mark, so
`10` is ten and `1A` is twenty-six. -/
def operand (t : Token) : Except NumberError Nat :=
  match Numeral.read? (fun n => n == 1 || n == 2) t.toList with
  | none => .error .malformed
  | some n =>
    match n.word? with
    | none => .error .tooLarge
    | some v => .ok v

end Token

end NibbleAsm
