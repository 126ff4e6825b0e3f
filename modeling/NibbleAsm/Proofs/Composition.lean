import NibbleAsm.Proofs.Grammar
import NibbleAsm.Proofs.Relocation

/-! Sources put one after the other. Assembly goes on where the first source ended: its emissions
stay as they are and those of the second move up by its size. A fault of the first source stands
whatever follows, but for an operand that is still awaited at its end. -/

namespace NibbleAsm

def Listing.followedBy (L M : Listing) : Listing :=
  ⟨L.emissions ++ M.emissions.map (Emission.moved L.size)⟩

namespace Program

variable {T : Table}

theorem size_listing (p : Program T) : p.listing.size = p.size := by
  have h : ∀ address, (⟨p.emissions address⟩ : Listing).size = p.size := by
    induction p with
    | nil => exact fun _ => rfl
    | cons i p ih =>
      intro address
      rw [emissions, Listing.size_cons, ih, size_cons]
  exact h 0

theorem emissions_append (address : ℕ) (p q : Program T) :
    Program.emissions address (p ++ q) = p.emissions address ++ q.emissions (address + p.size) := by
  induction p generalizing address with
  | nil => rfl
  | cons i p ih => rw [List.cons_append, emissions, emissions, ih, List.cons_append, size_cons,
      Nat.add_assoc]

theorem listing_concat (p : Program T) (i : Instruction T) :
    Program.listing (p ++ [i]) =
      ⟨p.listing.emissions ++ [⟨i.line, p.listing.size, i.bytes⟩]⟩ := by
  rw [listing, emissions_append, size_listing, Nat.zero_add]
  rfl

end Program

theorem Assembler.collect_address (T : Table) (lines : List Line) (address : ℕ) :
    (collect ⟨T, ⟨lines⟩, address, ⟨[]⟩⟩).result =
      (collect (.start T lines)).result.map (List.map (Emission.moved address)) :=
  congrArg Logged.result (collect_moved address ⟨[]⟩ (.start T lines))

theorem assembleLines_program_append {T : Table} (p : Program T) (rest : List Line) :
    (assembleLines T (p.lines ++ rest)).result =
      (assembleLines T rest).result.map p.listing.followedBy := by
  have hlines := Assembler.collect_program ⟨[]⟩ p rest 0
  rw [Nat.zero_add, Assembler.collect_address T rest] at hlines
  rw [assembleLines, assembleLines, Assembler.run_result, Assembler.run_result, Assembler.start,
    hlines]
  cases (Assembler.start T rest).collect.result with
  | error f => rfl
  | ok es =>
    simp only [Except.map]
    rw [Listing.followedBy, Program.size_listing, Program.listing]
    rfl

theorem assembleLines_concat_append {T : Table} (p : Program T) (i : Instruction T)
    (rest : List Line) :
    (assembleLines T (p.lines ++ (i.lines ++ rest))).result =
      (assembleLines T rest).result.map
        (Listing.followedBy ⟨p.listing.emissions ++ [⟨i.line, p.listing.size, i.bytes⟩]⟩) := by
  have hlines : Program.lines (p ++ [i]) = p.lines ++ i.lines := by
    rw [Program.lines, List.flatMap_append, List.flatMap_singleton]
    rfl
  rw [← Program.listing_concat, ← List.append_assoc, ← hlines]
  exact assembleLines_program_append (p ++ [i]) rest

/-- More lines at the end change no trouble but that of a missing byte. -/
theorem Faulty.append {T : Table} {l : Line} {rest : List Line} {k : Trouble} {f : Fault}
    (h : Faulty T l rest k f) (hk : k ≠ .noByte) (B : List Line) : Faulty T l (rest ++ B) k f := by
  cases h with
  | unmatched hl ht hT => exact .unmatched hl ht hT
  | noOperand hl hform => exact .noOperand hl hform
  | badOperand hl hform hu => exact .badOperand hl hform hu
  | largeOperand hl hform hu hv => exact .largeOperand hl hform hu hv
  | badByte hl hform hu => exact .badByte hl hform hu
  | badByteAhead hl hform hrest hblanks hq hu =>
    subst hrest
    rw [List.append_assoc, List.cons_append]
    exact .badByteAhead hl hform rfl hblanks hq hu
  | noByte => exact absurd rfl hk

theorem assembleLines_append_of_ok {T : Table} {A : List Line} {L : Listing}
    (h : (assembleLines T A).result = .ok L) (B : List Line) :
    (assembleLines T (A ++ B)).result = (assembleLines T B).result.map L.followedBy := by
  obtain ⟨p, rfl, rfl⟩ := exists_program_of_ok h
  exact assembleLines_program_append p B

theorem assembleLines_append_of_error {T : Table} {A : List Line} {f : Fault}
    (h : (assembleLines T A).result = .error f)
    (hcause : ∀ name, f.cause ≠ .missingImmediate name) (B : List Line) :
    (assembleLines T (A ++ B)).result = .error f := by
  obtain ⟨p, l, rest, k, rfl, hf⟩ := exists_faulty_of_error h
  have hk : k ≠ .noByte := by
    rintro rfl
    cases hf with
    | noByte => exact hcause _ rfl
  rw [List.append_assoc, List.cons_append]
  exact assembleLines_faulty p (hf.append hk B)

/-- A source that ends while an operand is awaited: `L` is what it gave before, and `op` is the
opcode that stands alone on line `l`. -/
structure Awaiting (T : Table) (A : List Line) (L : Listing) (l : Line) (op : Opcode) : Prop where
  source : ∃ before blanks, A = before ++ l :: blanks ∧ (assembleLines T before).result = .ok L ∧
    ∀ z ∈ blanks, z.isBlank = true
  calls : l.Calls T op []
  form : op.form = .immediate

theorem exists_awaiting {T : Table} {A : List Line} {n : ℕ} {name : String}
    (h : (assembleLines T A).result = .error ⟨n, .missingImmediate name⟩) :
    ∃ L l op, Awaiting T A L l op ∧ l.number = n ∧ op.name = name := by
  obtain ⟨p, l, rest, k, rfl, hf⟩ := exists_faulty_of_error h
  cases hf with
  | noByte hl hform hrest =>
    exact ⟨p.listing, l, _, ⟨⟨p.lines, rest, rfl, assembleLines_program p, hrest⟩, hl, hform⟩,
      rfl, rfl⟩

namespace Awaiting

variable {T : Table} {A : List Line} {L : Listing} {l : Line} {op : Opcode}

theorem append_blank (h : Awaiting T A L l op) {B : List Line} (hB : ∀ z ∈ B, z.isBlank = true) :
    (assembleLines T (A ++ B)).result = .error ⟨l.number, .missingImmediate op.name⟩ := by
  obtain ⟨⟨before, blanks, rfl, hL, hblanks⟩, hcalls, hform⟩ := h
  obtain ⟨p, rfl, -⟩ := exists_program_of_ok hL
  rw [List.append_assoc, List.cons_append]
  exact assembleLines_faulty p (.noByte hcalls hform (List.forall_mem_append.2 ⟨hblanks, hB⟩))

theorem append_line (h : Awaiting T A L l op) {blanks C : List Line} {q : Line} {t : Token}
    {args : List Token} (hblanks : ∀ z ∈ blanks, z.isBlank = true) (hq : q.tokens = t :: args) :
    (assembleLines T (A ++ (blanks ++ q :: C))).result =
      match t.byte with
      | .error _ => .error ⟨q.number, .badOperand op.name t⟩
      | .ok x =>
        (assembleLines T C).result.map
          (Listing.followedBy ⟨L.emissions ++ [⟨l, L.size, [op.base, x]⟩]⟩) := by
  obtain ⟨⟨before, blanks', rfl, hL, hblanks'⟩, hcalls, hform⟩ := h
  obtain ⟨p, rfl, rfl⟩ := exists_program_of_ok hL
  have hall : ∀ z ∈ blanks' ++ blanks, z.isBlank = true :=
    List.forall_mem_append.2 ⟨hblanks', hblanks⟩
  have hsource : p.lines ++ l :: blanks' ++ (blanks ++ q :: C) =
      p.lines ++ l :: (blanks' ++ blanks ++ q :: C) := by
    simp only [List.append_assoc, List.cons_append]
  rw [hsource]
  rcases t.byte_ok_or_malformed with ⟨x, ht⟩ | ht
  · -- with the line that was awaited, the opcode completes the program
    let i : Instruction T :=
      ⟨l, blanks' ++ blanks ++ [q], [op.base, x], .lookahead hcalls hform hall hq ht⟩
    have hlines : l :: (blanks' ++ blanks ++ q :: C) = i.lines ++ C := by
      rw [Instruction.lines, List.cons_append, List.append_assoc _ [q], List.singleton_append]
    rw [hlines, ht]
    exact assembleLines_concat_append p i C
  · rw [ht]
    exact assembleLines_faulty p (.badByteAhead hcalls hform rfl hall hq ht)

end Awaiting

/-- How the assembly of two sources follows from that of the parts, by the end of the first: it
assembles, or it fails whatever follows, or an operand is still awaited. -/
theorem assembleLines_append (T : Table) (A : List Line) :
    (∀ L, (assembleLines T A).result = .ok L →
      ∀ B, (assembleLines T (A ++ B)).result = (assembleLines T B).result.map L.followedBy) ∧
    (∀ f, (assembleLines T A).result = .error f → (∀ name, f.cause ≠ .missingImmediate name) →
      ∀ B, (assembleLines T (A ++ B)).result = .error f) ∧
    (∀ n name, (assembleLines T A).result = .error ⟨n, .missingImmediate name⟩ →
      ∃ L l op, Awaiting T A L l op ∧ l.number = n ∧ op.name = name ∧
        ∀ B, ((∀ z ∈ B, z.isBlank = true) ∧
            (assembleLines T (A ++ B)).result = .error ⟨n, .missingImmediate name⟩) ∨
          ∃ blanks q C t, B = blanks ++ q :: C ∧ (∀ z ∈ blanks, z.isBlank = true) ∧
            q.isBlank = false ∧ q.firstToken? = some t ∧
            (assembleLines T (A ++ B)).result =
              match t.byte with
              | .error _ => .error ⟨q.number, .badOperand name t⟩
              | .ok x =>
                (assembleLines T C).result.map
                  (Listing.followedBy ⟨L.emissions ++ [⟨l, L.size, [op.base, x]⟩]⟩)) := by
  refine ⟨fun L hL => assembleLines_append_of_ok hL,
    fun f hf hcause => assembleLines_append_of_error hf hcause, ?_⟩
  intro n name h
  obtain ⟨L, l, op, hA, rfl, rfl⟩ := exists_awaiting h
  refine ⟨L, l, op, hA, rfl, rfl, fun B => ?_⟩
  rcases Feed.blank_or_exists_line B with hB | ⟨blanks, q, C, t, args, rfl, hblanks, hq⟩
  · exact Or.inl ⟨hB, hA.append_blank hB⟩
  · refine Or.inr ⟨blanks, q, C, t, rfl, hblanks, Line.not_isBlank_of_tokens hq, ?_,
      hA.append_line hblanks hq⟩
    rw [Line.firstToken?, hq, List.head?_cons]

/-- The three ends: a load that is complete, a name that is unknown, and a load without its byte,
which waits past blank lines and takes the first line that is not blank. -/
theorem assembleLines_append_ldi :
    (assembleLines .withImmediate ([⟨1, "LDI 9"⟩] ++ [⟨1, "HLT"⟩])).result =
      .ok ⟨[⟨⟨1, "LDI 9"⟩, 0, [0xC0, 9]⟩, ⟨⟨1, "HLT"⟩, 2, [0x50]⟩]⟩ ∧
    (assembleLines .withImmediate ([⟨1, "LDX"⟩] ++ [⟨1, "HLT"⟩])).result =
      .error ⟨1, .unrecognized "LDX"⟩ ∧
    (∃ L l op, Awaiting .withImmediate [⟨1, "LDI"⟩] L l op ∧ l.number = 1 ∧ op.name = "LDI") ∧
    (assembleLines .withImmediate ([⟨1, "LDI"⟩] ++ [⟨1, ""⟩])).result =
      .error ⟨1, .missingImmediate "LDI"⟩ ∧
    (assembleLines .withImmediate ([⟨1, "LDI"⟩] ++ [⟨1, ""⟩, ⟨2, "HLT"⟩])).result =
      .error ⟨2, .badOperand "LDI" "HLT"⟩ := by
  have hmissing : (assembleLines .withImmediate [⟨1, "LDI"⟩]).result =
      .error ⟨1, .missingImmediate "LDI"⟩ := by cbv
  obtain ⟨L, l, op, hA, hnumber, hname, hB⟩ :=
    (assembleLines_append .withImmediate [⟨1, "LDI"⟩]).2.2 1 "LDI" hmissing
  have hblank : (⟨1, ""⟩ : Line).isBlank = true := by cbv
  have hline : (⟨2, "HLT"⟩ : Line).isBlank = false := by cbv
  have htoken : (⟨2, "HLT"⟩ : Line).firstToken? = some "HLT" := by cbv
  have hbyte : Token.byte "HLT" = .error .malformed := by cbv
  refine ⟨?_, ?_, ⟨L, l, op, hA, hnumber, hname⟩, ?_, ?_⟩
  · have h := (assembleLines_append .withImmediate [⟨1, "LDI 9"⟩]).1
      ⟨[⟨⟨1, "LDI 9"⟩, 0, [0xC0, 9]⟩]⟩ (by cbv) [⟨1, "HLT"⟩]
    rw [h]
    cbv
  · exact (assembleLines_append .withImmediate [⟨1, "LDX"⟩]).2.1 ⟨1, .unrecognized "LDX"⟩ (by cbv)
      (by simp) [⟨1, "HLT"⟩]
  · rcases hB [⟨1, ""⟩] with ⟨-, hresult⟩ | ⟨blanks, q, C, t, hcut, -, hq, -⟩
    · exact hresult
    · have hmem : q ∈ [(⟨1, ""⟩ : Line)] := by simp [hcut]
      obtain rfl := List.mem_singleton.1 hmem
      simp [hblank] at hq
  · rcases hB [⟨1, ""⟩, ⟨2, "HLT"⟩] with ⟨hall, -⟩ | ⟨blanks, q, C, t, hcut, -, hq, ht, hresult⟩
    · have hnot := hall ⟨2, "HLT"⟩ (by simp)
      simp [hline] at hnot
    · rcases blanks with _ | ⟨z, _ | ⟨z', blanks⟩⟩
      · obtain ⟨rfl, -⟩ := List.cons.inj hcut
        simp [hblank] at hq
      · obtain ⟨rfl, -⟩ := List.cons.inj (List.cons.inj hcut).2
        obtain rfl := Option.some.inj (htoken.symm.trans ht)
        simpa only [hbyte] using hresult
      · simp at hcut

end NibbleAsm
