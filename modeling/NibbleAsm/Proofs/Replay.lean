import NibbleAsm.Proofs.Grammar
import NibbleAsm.Proofs.LetterCase

/-! Faults as diagnostics of their own. The line that a fault's fields spell fails with that same
fault: the name in the table is looked up to the same opcode, and a number that was reported in
decimal is read back. -/

namespace NibbleAsm

/-- The text that shows a cause by itself. -/
def Cause.source : Cause → String
  | .missingOperand opcode => opcode
  | .badOperand opcode token => opcode ++ " " ++ token
  | .operandOutOfRange opcode value => opcode ++ " " ++ value
  | .missingImmediate opcode => opcode
  | .unrecognized text => text

def Fault.replay (f : Fault) : Line :=
  ⟨f.line, f.cause.source⟩

theorem Table.FirstMatch.of_name {T : Table} {name : String} {op : Opcode}
    (h : T.FirstMatch name op) : T.FirstMatch op.name op := by
  obtain ⟨before, after, -, hname, -⟩ := id h
  rw [← Table.find?_eq_some_iff] at h ⊢
  rw [Table.find?_congr hname, h]

namespace Line.Calls

variable {T : Table} {l : Line} {op : Opcode} {args : List Token}

theorem isWord_name (h : l.Calls T op args) : Token.IsWord op.name := by
  obtain ⟨t, ht, -, -, -, -, hname, -⟩ := h
  have hword : t.IsWord := isWord_of_mem_tokens (ht ▸ List.mem_cons_self)
  exact hword.of_sameName hname

theorem isWord_arg {u : Token} (h : l.Calls T op (u :: args)) : u.IsWord := by
  obtain ⟨t, ht, -⟩ := h
  exact isWord_of_mem_tokens (ht ▸ List.mem_cons_of_mem t List.mem_cons_self)

theorem of_name (h : l.Calls T op args) {l' : Line} {args' : List Token}
    (hl' : l'.tokens = op.name :: args') : l'.Calls T op args' := by
  obtain ⟨t, -, hliteral, hop⟩ := h
  obtain ⟨before, after, -, hname, -⟩ := id hop
  exact ⟨op.name, hl', (Token.isLiteralByte_congr hname).trans hliteral, hop.of_name⟩

end Line.Calls

theorem Token.isWord_toString (v : ℕ) : Token.IsWord (toString v) := by
  rw [Token.IsWord, Nat.toString_eq_repr, Nat.toList_repr]
  refine ⟨Nat.toDigits_ne_nil, fun c hc => ?_⟩
  exact Token.not_isBlank_of_isDigitIn (isDigitIn_of_mem_toDigits (by decide) (by decide) hc)

theorem Token.denotes_toString (v : ℕ) : Token.Denotes (toString v) v := by
  refine ⟨10, Nat.toDigits 10 v, ?_, (positional_toDigits (by decide) (by decide) v).symm⟩
  rw [Nat.toString_eq_repr, Nat.toList_repr]
  exact .decimal Nat.toDigits_ne_nil fun c hc =>
    isDigitIn_of_mem_toDigits (by decide) (by decide) hc

/-- A fault comes back from the line that it spells, without any lines after it. -/
theorem Faulty.replay {T : Table} {l : Line} {rest : List Line} {k : Trouble} {f : Fault}
    (h : Faulty T l rest k f) : ∃ k', Faulty T f.replay [] k' f := by
  cases h with
  | unmatched hl ht hT =>
    have h : Faulty T ⟨l.number, l.trimmed⟩ [] .unmatched _ :=
      .unmatched ((Line.tokens_trimmed l).trans hl) ht hT
    rw [Line.trimmed_trimmed] at h
    exact ⟨_, h⟩
  | noOperand hl hform =>
    exact ⟨_, .noOperand (hl.of_name (Line.tokens_word _ hl.isWord_name)) hform⟩
  | badOperand hl hform hu =>
    have hl' := hl.of_name (Line.tokens_pair l.number hl.isWord_name hl.isWord_arg)
    exact ⟨_, .badOperand hl' hform hu⟩
  | @largeOperand op u args v hl hform hu hv =>
    -- the value is the number in decimal, or the token as it stands if no word holds the number
    by_cases hword : v < Numeral.wordBound
    · have hl' := hl.of_name (Line.tokens_pair l.number hl.isWord_name (Token.isWord_toString v))
      have h : Faulty T _ [] .largeOperand _ :=
        .largeOperand hl' hform (Token.denotes_toString v) hv
      simp only [if_pos hword] at h ⊢
      exact ⟨_, h⟩
    · have hl' := hl.of_name (Line.tokens_pair l.number hl.isWord_name hl.isWord_arg)
      have h : Faulty T _ [] .largeOperand _ := .largeOperand hl' hform hu hv
      simp only [if_neg hword] at h ⊢
      exact ⟨_, h⟩
  | badByte hl hform hu =>
    have hl' := hl.of_name (Line.tokens_pair l.number hl.isWord_name hl.isWord_arg)
    exact ⟨_, .badByte hl' hform hu⟩
  | @badByteAhead op blanks after q u args hl hform hrest hblanks hq hu =>
    -- the operand moves to the line of its opcode
    have hword : u.IsWord := Line.isWord_of_mem_tokens (hq ▸ List.mem_cons_self)
    have hl' := hl.of_name (Line.tokens_pair q.number hl.isWord_name hword)
    exact ⟨_, .badByte hl' hform hu⟩
  | noByte hl hform hrest =>
    have hl' := hl.of_name (Line.tokens_word l.number hl.isWord_name)
    exact ⟨_, .noByte hl' hform (List.forall_mem_nil _)⟩

theorem assembleLines_replay {T : Table} {lines : List Line} {f : Fault}
    (h : (assembleLines T lines).result = .error f) :
    (assembleLines T [f.replay]).result = .error f := by
  obtain ⟨p, l, rest, k, -, hf⟩ := exists_faulty_of_error h
  obtain ⟨k', hf'⟩ := hf.replay
  exact assembleLines_faulty ([] : Program T) hf'

/-- An operand in hexadecimal, one that no word holds, and one that is found on a later line. -/
theorem assembleLines_replay_operands :
    (assembleLines .withImmediate [⟨1, "HLT"⟩, ⟨2, "lda 0x1F"⟩]).result =
      .error ⟨2, .operandOutOfRange "LDA" "31"⟩ ∧
    (assembleLines .withImmediate [⟨2, "LDA 31"⟩]).result =
      .error ⟨2, .operandOutOfRange "LDA" "31"⟩ ∧
    (assembleLines .withImmediate [⟨1, "lda 0x1ffffffffffffffff"⟩]).result =
      .error ⟨1, .operandOutOfRange "LDA" "0x1ffffffffffffffff"⟩ ∧
    (assembleLines .withImmediate [⟨1, "LDA 0x1ffffffffffffffff"⟩]).result =
      .error ⟨1, .operandOutOfRange "LDA" "0x1ffffffffffffffff"⟩ ∧
    (assembleLines .withImmediate [⟨1, "ldi"⟩, ⟨2, ""⟩, ⟨3, "HLT"⟩]).result =
      .error ⟨3, .badOperand "LDI" "HLT"⟩ ∧
    (assembleLines .withImmediate [⟨3, "LDI HLT"⟩]).result =
      .error ⟨3, .badOperand "LDI" "HLT"⟩ := by
  have hdecimal : (assembleLines .withImmediate [⟨1, "HLT"⟩, ⟨2, "lda 0x1F"⟩]).result =
      .error ⟨2, .operandOutOfRange "LDA" "31"⟩ := by cbv
  have hwide : (assembleLines .withImmediate [⟨1, "lda 0x1ffffffffffffffff"⟩]).result =
      .error ⟨1, .operandOutOfRange "LDA" "0x1ffffffffffffffff"⟩ := by cbv
  have hahead : (assembleLines .withImmediate [⟨1, "ldi"⟩, ⟨2, ""⟩, ⟨3, "HLT"⟩]).result =
      .error ⟨3, .badOperand "LDI" "HLT"⟩ := by cbv
  exact ⟨hdecimal, assembleLines_replay hdecimal, hwide, assembleLines_replay hwide, hahead,
    assembleLines_replay hahead⟩

end NibbleAsm
