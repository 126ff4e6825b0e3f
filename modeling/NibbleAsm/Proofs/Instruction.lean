import NibbleAsm.Assembler
import NibbleAsm.Proofs.Token

/-! One instruction. The line it starts on and the lines that follow decide it: either they begin
with one of the six shapes of `Shape`, or one of the seven troubles of `Faulty` arises
(`exists_instruction_or_faulty`). Encoding gives the bytes of the one or the fault of the other. -/

namespace NibbleAsm

/-- The first opcode of the table, packed before single before immediate, whose name is the given
one but for the case of letters. -/
def Table.FirstMatch (T : Table) (name : String) (op : Opcode) : Prop :=
  ∃ before after, T.opcodes = before ++ op :: after ∧ Text.sameName op.name name = true ∧
    ∀ other ∈ before, Text.sameName other.name name = false

/-- The line calls an opcode: its first token is no literal byte and names the opcode, and `args`
are its other tokens. -/
def Line.Calls (T : Table) (l : Line) (op : Opcode) (args : List Token) : Prop :=
  ∃ t, l.tokens = t :: args ∧ t.isLiteralByte = false ∧ T.FirstMatch t op

/-- `Shape T l more bytes`: an instruction that starts on line `l`, takes the lines `more` besides
and gives `bytes`. -/
inductive Shape (T : Table) : Line → List Line → List UInt8 → Prop
  | pad {l : Line} (hl : l.isBlank = true) : Shape T l [] [0]
  | literal {l : Line} {t : Token} {args : List Token} (hl : l.tokens = t :: args)
      (ht : t.isLiteralByte = true) : Shape T l [] [UInt8.ofNat t.literalValue]
  | packed {l : Line} {op : Opcode} {u : Token} {args : List Token} {v : ℕ}
      (hl : l.Calls T op (u :: args)) (hform : op.form = .packed) (hu : u.Denotes v) (hv : v ≤ 15) :
      Shape T l [] [UInt8.ofNat (op.base.toNat + v)]
  | single {l : Line} {op : Opcode} {args : List Token} (hl : l.Calls T op args)
      (hform : op.form = .single) : Shape T l [] [op.base]
  | immediate {l : Line} {op : Opcode} {u : Token} {args : List Token} {x : UInt8}
      (hl : l.Calls T op (u :: args)) (hform : op.form = .immediate) (hu : u.byte = .ok x) :
      Shape T l [] [op.base, x]
  | lookahead {l q : Line} {op : Opcode} {blanks : List Line} {u : Token} {args : List Token}
      {x : UInt8} (hl : l.Calls T op []) (hform : op.form = .immediate)
      (hblanks : ∀ z ∈ blanks, z.isBlank = true) (hq : q.tokens = u :: args)
      (hu : u.byte = .ok x) : Shape T l (blanks ++ [q]) [op.base, x]

@[ext]
structure Instruction (T : Table) where
  line : Line
  more : List Line
  bytes : List UInt8
  shape : Shape T line more bytes

def Instruction.lines {T : Table} (i : Instruction T) : List Line :=
  i.line :: i.more

/-- The ways in which an instruction can fail. -/
inductive Trouble where
  | unmatched
  | noOperand
  | badOperand
  | largeOperand
  | badByte
  | badByteAhead
  | noByte
deriving DecidableEq, Repr

/-- What a trouble takes of the lines that follow its own: nothing, or all of them up to the line
on which an operand is looked for. -/
def Trouble.taken (rest : Feed) : Trouble → Feed.Taken
  | .badByteAhead | .noByte => rest.nextNonblank
  | _ => ⟨[], none, rest⟩

/-- The trouble with the instruction that starts on line `l`, where `rest` follows that line, and
the fault it gives. -/
inductive Faulty (T : Table) (l : Line) (rest : List Line) : Trouble → Fault → Prop
  | unmatched {t : Token} {args : List Token} (hl : l.tokens = t :: args)
      (ht : t.isLiteralByte = false) (hT : ∀ op ∈ T.opcodes, Text.sameName op.name t = false) :
      Faulty T l rest .unmatched ⟨l.number, .unrecognized l.trimmed⟩
  | noOperand {op : Opcode} (hl : l.Calls T op []) (hform : op.form = .packed) :
      Faulty T l rest .noOperand ⟨l.number, .missingOperand op.name⟩
  | badOperand {op : Opcode} {u : Token} {args : List Token} (hl : l.Calls T op (u :: args))
      (hform : op.form = .packed) (hu : ∀ v, ¬ u.Denotes v) :
      Faulty T l rest .badOperand ⟨l.number, .badOperand op.name u⟩
  | largeOperand {op : Opcode} {u : Token} {args : List Token} {v : ℕ}
      (hl : l.Calls T op (u :: args)) (hform : op.form = .packed) (hu : u.Denotes v) (hv : 15 < v) :
      Faulty T l rest .largeOperand
        ⟨l.number, .operandOutOfRange op.name (if v < Numeral.wordBound then toString v else u)⟩
  | badByte {op : Opcode} {u : Token} {args : List Token} (hl : l.Calls T op (u :: args))
      (hform : op.form = .immediate) (hu : u.byte = .error .malformed) :
      Faulty T l rest .badByte ⟨l.number, .badOperand op.name u⟩
  | badByteAhead {op : Opcode} {blanks after : List Line} {q : Line} {u : Token}
      {args : List Token} (hl : l.Calls T op []) (hform : op.form = .immediate)
      (hrest : rest = blanks ++ q :: after) (hblanks : ∀ z ∈ blanks, z.isBlank = true)
      (hq : q.tokens = u :: args) (hu : u.byte = .error .malformed) :
      Faulty T l rest .badByteAhead ⟨q.number, .badOperand op.name u⟩
  | noByte {op : Opcode} (hl : l.Calls T op []) (hform : op.form = .immediate)
      (hrest : ∀ z ∈ rest, z.isBlank = true) :
      Faulty T l rest .noByte ⟨l.number, .missingImmediate op.name⟩

theorem Table.find?_eq_some_iff {T : Table} {name : String} {op : Opcode} :
    T.find? name = some op ↔ T.FirstMatch name op := by
  rw [find?, List.find?_eq_some_iff_append]
  constructor
  · rintro ⟨hname, before, after, hops, hbefore⟩
    exact ⟨before, after, hops, hname, by simpa using hbefore⟩
  · rintro ⟨before, after, hops, hname, hbefore⟩
    exact ⟨hname, before, after, hops, by simpa using hbefore⟩

theorem Table.find?_eq_none_iff {T : Table} {name : String} :
    T.find? name = none ↔ ∀ op ∈ T.opcodes, Text.sameName op.name name = false := by
  simp [find?]

namespace Line

variable {T : Table} {l : Line} {op op' : Opcode} {args args' : List Token}

theorem Calls.unique (h : l.Calls T op args) (h' : l.Calls T op' args') :
    op = op' ∧ args = args' := by
  obtain ⟨t, ht, -, hop⟩ := h
  obtain ⟨t', ht', -, hop'⟩ := h'
  rw [ht] at ht'
  obtain ⟨rfl, rfl⟩ := List.cons.inj ht'
  rw [← Table.find?_eq_some_iff] at hop hop'
  exact ⟨Option.some_inj.1 (hop.symm.trans hop'), rfl⟩

theorem Calls.mem_opcodes (h : l.Calls T op args) : op ∈ T.opcodes := by
  obtain ⟨t, -, -, before, after, hops, -⟩ := h
  simp [hops]

theorem Calls.not_packed (h : l.Calls T op args) (hform : op.form = .immediate)
    (h' : l.Calls T op' args') : op'.form ≠ .packed := by
  rw [← (h.unique h').1, hform]
  decide

theorem statement_of_blank (h : l.isBlank = true) : l.statement T = .pad := by
  rw [statement, isBlank_iff.1 h, Statement.ofTokens]

theorem statement_of_literal {t : Token} (hl : l.tokens = t :: args)
    (ht : t.isLiteralByte = true) :
    l.statement T = .literal (UInt8.ofNat t.literalValue) := by
  rw [statement, hl, Statement.ofTokens, if_pos ht, Token.byte_of_isLiteralByte ht]

theorem statement_of_not_literal {t : Token} (hl : l.tokens = t :: args)
    (ht : t.isLiteralByte = false) :
    l.statement T = (T.find? t).elim .unknown fun op => Statement.ofOpcode op args.head? := by
  rw [statement, hl, Statement.ofTokens, if_neg (by simp [ht])]
  cases T.find? t <;> rfl

theorem statement_of_calls (h : l.Calls T op args) :
    l.statement T = Statement.ofOpcode op args.head? := by
  obtain ⟨t, htokens, ht, hop⟩ := h
  rw [statement_of_not_literal htokens ht, Table.find?_eq_some_iff.2 hop, Option.elim_some]

end Line

namespace Feed

theorem nextNonblank_of_line {blanks : List Line} {q : Line} (rest : List Line)
    (hblanks : ∀ z ∈ blanks, z.isBlank = true) (hq : q.isBlank = false) :
    Feed.nextNonblank ⟨blanks ++ q :: rest⟩ = ⟨blanks, some q, ⟨rest⟩⟩ := by
  rw [nextNonblank]
  simp only [Text.takeWhile_append_cons _ hq, Text.dropWhile_append_cons _ hq,
    List.takeWhile_eq_self_iff.2 hblanks, List.dropWhile_eq_nil_iff.2 hblanks, List.nil_append,
    List.head?_cons, List.tail_cons]

theorem nextNonblank_of_blank {lines : List Line} (h : ∀ z ∈ lines, z.isBlank = true) :
    Feed.nextNonblank ⟨lines⟩ = ⟨lines, none, ⟨[]⟩⟩ := by
  rw [nextNonblank]
  simp only [List.takeWhile_eq_self_iff.2 h, List.dropWhile_eq_nil_iff.2 h, List.head?_nil,
    List.tail_nil]

/-- Either no line has a token, or the first one that has comes after blank lines. -/
theorem blank_or_exists_line (lines : List Line) :
    (∀ z ∈ lines, z.isBlank = true) ∨
      ∃ blanks q rest u args, lines = blanks ++ q :: rest ∧ (∀ z ∈ blanks, z.isBlank = true) ∧
        q.tokens = u :: args := by
  induction lines with
  | nil => exact Or.inl (List.forall_mem_nil _)
  | cons l lines ih =>
    cases hl : l.tokens with
    | cons u args => exact Or.inr ⟨[], l, lines, u, args, rfl, List.forall_mem_nil _, hl⟩
    | nil =>
      have hblank : l.isBlank = true := Line.isBlank_iff.2 hl
      rcases ih with h | ⟨blanks, q, rest, u, args, rfl, hblanks, hq⟩
      · exact Or.inl (List.forall_mem_cons.2 ⟨hblank, h⟩)
      · exact Or.inr ⟨l :: blanks, q, rest, u, args, rfl,
          List.forall_mem_cons.2 ⟨hblank, hblanks⟩, hq⟩

end Feed

namespace Opcode

theorem packedByte_of_le {op : Opcode} {u : Token} {v : ℕ} (hu : u.Denotes v) (hv : v ≤ 15) :
    op.packedByte (some u) = .ok (UInt8.ofNat (op.base.toNat + v)) := by
  have hword : v < Numeral.wordBound := lt_of_le_of_lt hv (by decide)
  rw [packedByte]
  simp only [Token.operand_of_denotes hu, if_pos hword, if_pos hv, UInt8.ofNat_add,
    UInt8.ofNat_toNat]

theorem packedByte_of_gt {op : Opcode} {u : Token} {v : ℕ} (hu : u.Denotes v) (hv : 15 < v) :
    op.packedByte (some u) =
      .error (.operandOutOfRange op.name (if v < Numeral.wordBound then toString v else u)) := by
  rw [packedByte]
  simp only [Token.operand_of_denotes hu]
  by_cases hword : v < Numeral.wordBound
  · simp only [if_pos hword, if_neg (not_le.2 hv)]
  · simp only [if_neg hword]

theorem packedByte_of_not_denotes {op : Opcode} {u : Token} (hu : ∀ v, ¬ u.Denotes v) :
    op.packedByte (some u) = .error (.badOperand op.name u) := by
  rw [packedByte]
  simp only [Token.operand_of_not_denotes hu]

end Opcode

/-- An instruction gives its bytes, passes over the blank lines it takes and leaves the lines that
follow it. -/
theorem Shape.encode_eq {T : Table} {l : Line} {more : List Line} {bytes : List UInt8}
    (h : Shape T l more bytes) (rest : List Line) :
    (l.statement T).encode l ⟨more ++ rest⟩ = ⟨.ok bytes, more.dropLast, ⟨rest⟩⟩ := by
  cases h with
  | pad hl =>
    rw [Line.statement_of_blank hl]
    rfl
  | literal hl ht =>
    rw [Line.statement_of_literal hl ht]
    rfl
  | packed hl hform hu hv =>
    rw [Line.statement_of_calls hl, Statement.ofOpcode, hform]
    simp only [List.head?_cons, Statement.encode, Opcode.packedByte_of_le hu hv, Statement.atLine]
    rfl
  | single hl hform =>
    rw [Line.statement_of_calls hl, Statement.ofOpcode, hform]
    rfl
  | immediate hl hform hu =>
    rw [Line.statement_of_calls hl, Statement.ofOpcode, hform]
    simp only [List.head?_cons, Statement.encode, Opcode.immediateByte, hu, Statement.atLine]
    rfl
  | lookahead hl hform hblanks hq hu =>
    rw [Line.statement_of_calls hl, Statement.ofOpcode, hform]
    simp only [List.head?_nil, Statement.encode, List.append_assoc, List.singleton_append,
      Feed.nextNonblank_of_line rest hblanks (Line.not_isBlank_of_tokens hq), Line.firstToken?, hq,
      List.head?_cons, Opcode.immediateByte, hu, Statement.atLine, List.dropLast_concat]

/-- A line in trouble gives its fault, and the lines that were looked at are taken all the same. -/
theorem Faulty.encode_eq {T : Table} {l : Line} {rest : List Line} {k : Trouble} {f : Fault}
    (h : Faulty T l rest k f) :
    (l.statement T).encode l ⟨rest⟩ =
      ⟨.error f, (k.taken ⟨rest⟩).skipped, (k.taken ⟨rest⟩).rest⟩ := by
  cases h with
  | unmatched hl ht hT =>
    rw [Line.statement_of_not_literal hl ht, Table.find?_eq_none_iff.2 hT]
    rfl
  | noOperand hl hform =>
    rw [Line.statement_of_calls hl, Statement.ofOpcode, hform]
    rfl
  | badOperand hl hform hu =>
    rw [Line.statement_of_calls hl, Statement.ofOpcode, hform]
    simp only [List.head?_cons, Statement.encode, Opcode.packedByte_of_not_denotes hu,
      Statement.atLine, Trouble.taken]
  | largeOperand hl hform hu hv =>
    rw [Line.statement_of_calls hl, Statement.ofOpcode, hform]
    simp only [List.head?_cons, Statement.encode, Opcode.packedByte_of_gt hu hv, Statement.atLine,
      Trouble.taken]
  | badByte hl hform hu =>
    rw [Line.statement_of_calls hl, Statement.ofOpcode, hform]
    simp only [List.head?_cons, Statement.encode, Opcode.immediateByte, hu, Statement.atLine,
      Trouble.taken]
  | badByteAhead hl hform hrest hblanks hq hu =>
    rw [Line.statement_of_calls hl, Statement.ofOpcode, hform, hrest]
    simp only [List.head?_nil, Statement.encode, Trouble.taken,
      Feed.nextNonblank_of_line _ hblanks (Line.not_isBlank_of_tokens hq), Line.firstToken?, hq,
      List.head?_cons, Opcode.immediateByte, hu, Statement.atLine]
  | noByte hl hform hrest =>
    rw [Line.statement_of_calls hl, Statement.ofOpcode, hform]
    simp only [List.head?_nil, Statement.encode, Trouble.taken, Feed.nextNonblank_of_blank hrest]

theorem Faulty.encode_bytes {T : Table} {l : Line} {rest : List Line} {k : Trouble} {f : Fault}
    (h : Faulty T l rest k f) : ((l.statement T).encode l ⟨rest⟩).bytes = .error f := by
  rw [h.encode_eq]

theorem exists_instruction_or_faulty_of_calls {T : Table} {l : Line} {op : Opcode}
    {args : List Token} (h : l.Calls T op args) (rest : List Line) :
    (∃ (i : Instruction T) (after : List Line), l :: rest = i.lines ++ after) ∨
      ∃ k f, Faulty T l rest k f := by
  cases hform : op.form with
  | single => exact Or.inl ⟨⟨l, [], _, .single h hform⟩, rest, rfl⟩
  | packed =>
    cases args with
    | nil => exact Or.inr ⟨_, _, .noOperand h hform⟩
    | cons u args =>
      by_cases hu : ∃ v, u.Denotes v
      · obtain ⟨v, hu⟩ := hu
        rcases le_or_gt v 15 with hv | hv
        · exact Or.inl ⟨⟨l, [], _, .packed h hform hu hv⟩, rest, rfl⟩
        · exact Or.inr ⟨_, _, .largeOperand h hform hu hv⟩
      · exact Or.inr ⟨_, _, .badOperand h hform (not_exists.1 hu)⟩
  | immediate =>
    cases args with
    | cons u args =>
      rcases u.byte_ok_or_malformed with ⟨x, hu⟩ | hu
      · exact Or.inl ⟨⟨l, [], _, .immediate h hform hu⟩, rest, rfl⟩
      · exact Or.inr ⟨_, _, .badByte h hform hu⟩
    | nil =>
      -- the opcode stands alone, so the lines that follow decide
      rcases Feed.blank_or_exists_line rest with hrest | ⟨blanks, q, after, u, us, rfl, hblanks, hq⟩
      · exact Or.inr ⟨_, _, .noByte h hform hrest⟩
      · rcases u.byte_ok_or_malformed with ⟨x, hu⟩ | hu
        · refine Or.inl ⟨⟨l, blanks ++ [q], _, .lookahead h hform hblanks hq hu⟩, after, ?_⟩
          rw [Instruction.lines, List.cons_append, List.append_assoc, List.singleton_append]
        · exact Or.inr ⟨_, _, .badByteAhead h hform rfl hblanks hq hu⟩

theorem exists_instruction_or_faulty (T : Table) (l : Line) (rest : List Line) :
    (∃ (i : Instruction T) (after : List Line), l :: rest = i.lines ++ after) ∨
      ∃ k f, Faulty T l rest k f := by
  cases hl : l.tokens with
  | nil => exact Or.inl ⟨⟨l, [], _, .pad (Line.isBlank_iff.2 hl)⟩, rest, rfl⟩
  | cons t args =>
    cases ht : t.isLiteralByte with
    | true => exact Or.inl ⟨⟨l, [], _, .literal hl ht⟩, rest, rfl⟩
    | false =>
      cases hop : T.find? t with
      | none => exact Or.inr ⟨_, _, .unmatched hl ht (Table.find?_eq_none_iff.1 hop)⟩
      | some op =>
        have hcalls : l.Calls T op args := ⟨t, hl, ht, Table.find?_eq_some_iff.1 hop⟩
        exact exists_instruction_or_faulty_of_calls hcalls rest

theorem Instruction.unique {T : Table} {i j : Instruction T} {r s : List Line}
    (h : i.lines ++ r = j.lines ++ s) : i = j ∧ r = s := by
  obtain ⟨hline, hmore⟩ : i.line = j.line ∧ i.more ++ r = j.more ++ s := List.cons.inj h
  have hencoded := i.shape.encode_eq r
  rw [hline, hmore, j.shape.encode_eq s] at hencoded
  simp only [Encoded.mk.injEq, Except.ok.injEq, Feed.mk.injEq] at hencoded
  obtain ⟨hbytes, -, rfl⟩ := hencoded
  exact ⟨Instruction.ext hline (List.append_cancel_right hmore) hbytes.symm, rfl⟩

/-- One trouble at most arises, and it determines the fault. -/
theorem Faulty.unique {T : Table} {l : Line} {rest : List Line} {k k' : Trouble} {f f' : Fault}
    (h : Faulty T l rest k f) (h' : Faulty T l rest k' f') : k = k' ∧ f = f' := by
  have hf : f = f' := Except.error.inj (h.encode_bytes.symm.trans h'.encode_bytes)
  have hcause : f.cause = f'.cause := by rw [hf]
  refine ⟨?_, hf⟩
  -- The cause tells the trouble, but for the three that end in a bad operand: of these the form of
  -- the opcode and the number of tokens tell which one it is.
  cases h with
  | unmatched => cases h' <;> first | rfl | cases hcause
  | noOperand => cases h' <;> first | rfl | cases hcause
  | largeOperand => cases h' <;> first | rfl | cases hcause
  | noByte => cases h' <;> first | rfl | cases hcause
  | badOperand hl hform =>
    cases h' with
    | badOperand => rfl
    | badByte hl' hform' => exact absurd hform (hl'.not_packed hform' hl)
    | badByteAhead hl' hform' => exact absurd hform (hl'.not_packed hform' hl)
    | _ => cases hcause
  | badByte hl hform =>
    cases h' with
    | badByte => rfl
    | badOperand hl' hform' => exact absurd hform' (hl.not_packed hform hl')
    | badByteAhead hl' => exact nomatch (hl.unique hl').2
    | _ => cases hcause
  | badByteAhead hl hform =>
    cases h' with
    | badByteAhead => rfl
    | badOperand hl' hform' => exact absurd hform' (hl.not_packed hform hl')
    | badByte hl' => exact nomatch (hl.unique hl').2
    | _ => cases hcause

end NibbleAsm
