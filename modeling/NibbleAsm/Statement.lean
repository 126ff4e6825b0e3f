import NibbleAsm.Feed
import NibbleAsm.Table

/-! What a line says by itself. The first token decides: a literal byte wins over an opcode of the
same spelling, and at most one more token is looked at. Only an immediate opcode that stands alone
reaches beyond its line, to the first token of the next line that is not blank. What cannot be
encoded is a fault, with its cause and the line that shows it. -/

namespace NibbleAsm

inductive Cause where
  | missingOperand (opcode : String)
  | badOperand (opcode token : String)
  | operandOutOfRange (opcode value : String)
  | missingImmediate (opcode : String)
  | unrecognized (text : String)
deriving DecidableEq, Repr

structure Fault where
  line : Nat
  cause : Cause
deriving DecidableEq, Repr

def Cause.message : Cause → String
  | .missingOperand opcode => s!"missing operand for {opcode}"
  | .badOperand opcode token => s!"bad operand '{token}' for {opcode}"
  | .operandOutOfRange opcode value => s!"operand for {opcode} must be 0..15, got {value}"
  | .missingImmediate opcode => s!"missing immediate byte after {opcode}"
  | .unrecognized text => s!"unrecognized opcode or token: '{text}'"

def Fault.message (f : Fault) : String :=
  s!"line {f.line}: {f.cause.message}"

inductive Statement where
  | pad
  | literal (byte : UInt8)
  | packed (op : Opcode) (operand? : Option Token)
  | single (op : Opcode)
  | immediate (op : Opcode) (operand? : Option Token)
  | unknown
deriving DecidableEq, Repr

namespace Statement

def ofOpcode (op : Opcode) (operand? : Option Token) : Statement :=
  match op.form with
  | .packed => .packed op operand?
  | .single => .single op
  | .immediate => .immediate op operand?

def ofTokens (t : Table) : List Token → Statement
  | [] => .pad
  | first :: more =>
    if first.isLiteralByte then
      match first.byte with
      | .ok b => .literal b
      | .error _ => .unknown
    else
      match t.find? first with
      | some op => ofOpcode op more.head?
      | none => .unknown

end Statement

def Line.statement (t : Table) (l : Line) : Statement :=
  Statement.ofTokens t l.tokens

namespace Opcode

/-- The byte of a packed instruction: the base plus an operand of at most fifteen. -/
def packedByte (op : Opcode) (operand? : Option Token) : Except Cause UInt8 :=
  match operand? with
  | none => .error (.missingOperand op.name)
  | some token =>
    match token.operand with
    | .error .malformed => .error (.badOperand op.name token)
    | .error .tooLarge => .error (.operandOutOfRange op.name token)
    | .ok v =>
      if v ≤ 15 then .ok (op.base + UInt8.ofNat v)
      else .error (.operandOutOfRange op.name (toString v))

def immediateByte (op : Opcode) (token : Token) : Except Cause UInt8 :=
  match token.byte with
  | .ok b => .ok b
  | .error _ => .error (.badOperand op.name token)

end Opcode

/-- The outcome of one instruction: its bytes or a fault, the blank lines passed over in search of
an operand, and the lines left. -/
structure Encoded where
  bytes : Except Fault (List UInt8)
  skipped : List Line
  rest : Feed

namespace Statement

def atLine {α β : Type} (line : Nat) (f : α → β) : Except Cause α → Except Fault β
  | .ok a => .ok (f a)
  | .error c => .error ⟨line, c⟩

/-- The instruction that starts on line `l`, where `rest` follows that line. -/
def encode (l : Line) (rest : Feed) : Statement → Encoded
  | .pad => ⟨.ok [0], [], rest⟩
  | .literal b => ⟨.ok [b], [], rest⟩
  | .packed op operand? => ⟨atLine l.number ([·]) (op.packedByte operand?), [], rest⟩
  | .single op => ⟨.ok [op.base], [], rest⟩
  | .immediate op (some token) =>
    ⟨atLine l.number ([op.base, ·]) (op.immediateByte token), [], rest⟩
  | .immediate op none =>
    let taken := rest.nextNonblank
    match taken.line? with
    | none => ⟨.error ⟨l.number, .missingImmediate op.name⟩, taken.skipped, taken.rest⟩
    | some q =>
      match q.firstToken? with
      | none => ⟨.error ⟨l.number, .missingImmediate op.name⟩, taken.skipped, taken.rest⟩
      | some token =>
        ⟨atLine q.number ([op.base, ·]) (op.immediateByte token), taken.skipped, taken.rest⟩
  | .unknown => ⟨.error ⟨l.number, .unrecognized l.trimmed⟩, [], rest⟩

theorem suffix_encode (s : Statement) (l : Line) (rest : Feed) :
    (s.encode l rest).rest.remaining <:+ rest.remaining := by
  have h := rest.suffix_nextNonblank
  unfold encode
  split
  case h_6 =>
    dsimp only
    split
    · exact h
    · split <;> exact h
  all_goals exact List.suffix_refl _

end Statement

end NibbleAsm
