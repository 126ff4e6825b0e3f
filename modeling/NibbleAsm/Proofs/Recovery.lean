import NibbleAsm.Proofs.Addresses
import NibbleAsm.Proofs.Relocation

/-! After a fault. A step that fails leaves its assembler as it was but for the lines it took: its
own, and if that is an immediate opcode alone, all up to the line that should have held the operand.
What follows is what a new assembler gives on the lines that are left, moved to the address. -/

namespace NibbleAsm

theorem Event.emissions_moved (offset : ℕ) (log : List Event) :
    emissions (log.map (moved offset)) = (emissions log).map (Emission.moved offset) := by
  induction log with
  | nil => rfl
  | cons e log ih =>
    cases e <;> simp_all [emissions, moved]

namespace Assembler

variable {a : Assembler} {l : Line} {rest : List Line} {f : Fault}

theorem stepped_moved (offset : ℕ) (front : Listing) (n : ℕ) (a : Assembler) :
    (a.moved offset front).stepped n = (a.stepped n).moved offset front := by
  induction n with
  | zero => rfl
  | succ n ih => rw [stepped_succ, ih, step_moved, stepped_succ]

theorem answers_moved (offset : ℕ) (front : Listing) (n : ℕ) (a : Assembler) :
    (a.moved offset front).answers n =
      (a.answers n).map (Except.map (Option.map (Emission.moved offset))) := by
  induction n generalizing a with
  | zero => rfl
  | succ n ih => simp [answers, step_moved, ih]

/-- A step fails on a line in trouble, and takes what the trouble takes. -/
theorem exists_faulty_of_step (hfeed : a.feed.remaining = l :: rest)
    (hf : a.step.result = .error f) :
    ∃ k, Faulty a.table l rest k f ∧ a.step.after = { a with feed := (k.taken ⟨rest⟩).rest } := by
  obtain ⟨hresult, hafter⟩ := step_of_cons hfeed
  rw [hresult] at hf
  rw [hafter]
  rcases exists_instruction_or_faulty a.table l rest with ⟨i, after, hi⟩ | ⟨k, f', hf'⟩
  · obtain ⟨rfl, rfl⟩ : l = i.line ∧ rest = i.more ++ after := List.cons.inj hi
    simp [stepLine, i.shape.encode_eq after, Except.map] at hf
  · simp only [stepLine, hf'.encode_eq, Except.map] at hf ⊢
    obtain rfl := Except.error.inj hf
    exact ⟨k, hf', rfl⟩

end Assembler

theorem Step.emissions_moved (offset : ℕ) (front : Listing) (a : Assembler) :
    (a.moved offset front).step.emissions = a.step.emissions.map (Emission.moved offset) := by
  simp only [emissions, Assembler.step_moved]
  rcases a.step.result with f | (_ | e) <;> rfl

theorem Session.emissions_moved (offset : ℕ) (front : Listing) (s : Session) (a : Assembler) :
    s.emissions (a.moved offset front) = (s.emissions a).map (Emission.moved offset) := by
  induction s generalizing a with
  | stop => rfl
  | run =>
    simp only [emissions, Assembler.emissions_log_run, Assembler.collect_moved,
      Event.emissions_moved]
  | step next ih =>
    rw [emissions, emissions, Step.emissions_moved, Assembler.step_moved, ih, List.map_append]

namespace Faulty

variable {T : Table} {l : Line} {rest : List Line} {k : Trouble} {f : Fault}

/-- Only an immediate opcode that stands alone takes lines besides its own. -/
theorem taken_of_own (h : Faulty T l rest k f)
    (hown : 2 ≤ l.tokens.length ∨ ∀ op args, l.Calls T op args → op.form ≠ .immediate) :
    (k.taken ⟨rest⟩).rest = ⟨rest⟩ := by
  have hahead : ∀ {op}, l.Calls T op [] → op.form = .immediate → False := by
    intro op hl hform
    rcases hown with hlength | hother
    · obtain ⟨t, ht, -⟩ := hl
      simp [ht] at hlength
    · exact hother op [] hl hform
  cases h with
  | badByteAhead hl hform => exact (hahead hl hform).elim
  | noByte hl hform => exact (hahead hl hform).elim
  | _ => rfl

/-- An opcode alone that fails before a line with tokens fails by the first of them. -/
theorem taken_of_ahead (h : Faulty T l rest k f) {op : Opcode} {blanks after : List Line}
    {q : Line} {u : Token} {args : List Token} (hl : l.Calls T op []) (hform : op.form = .immediate)
    (hrest : rest = blanks ++ q :: after) (hblanks : ∀ z ∈ blanks, z.isBlank = true)
    (hq : q.tokens = u :: args) :
    (k.taken ⟨rest⟩).rest = ⟨after⟩ ∧ u.byte = .error .malformed ∧
      f = ⟨q.number, .badOperand op.name u⟩ := by
  rcases u.byte_ok_or_malformed with ⟨x, hu⟩ | hu
  · -- with a byte there the instruction would be complete, and so in no trouble
    have hok := (Shape.lookahead hl hform hblanks hq hu).encode_eq after
    rw [List.append_assoc, List.singleton_append, ← hrest, h.encode_eq] at hok
    cases congrArg Encoded.bytes hok
  · obtain ⟨rfl, rfl⟩ := h.unique (.badByteAhead hl hform hrest hblanks hq hu)
    refine ⟨?_, hu, rfl⟩
    have hne : q.isBlank = false := Line.not_isBlank_of_tokens hq
    rw [hrest, Trouble.taken, Feed.nextNonblank_of_line after hblanks hne]

theorem taken_of_missing (h : Faulty T l rest k f) {name : String}
    (hcause : f.cause = .missingImmediate name) : (k.taken ⟨rest⟩).rest = ⟨[]⟩ := by
  cases h with
  | noByte hl hform hblank => rw [Trouble.taken, Feed.nextNonblank_of_blank hblank]
  | _ => cases hcause

end Faulty

/-- A step that fails changes nothing but the lines that are left, and these are exactly known. It
adds nothing to what is collected, and what the assembler gives from then on, in steps or in a run,
is what a new one gives on those lines with the address added. -/
theorem step_after_fault {a : Assembler} {l : Line} {rest : List Line} {f : Fault}
    (hfeed : a.feed.remaining = l :: rest) (hf : a.step.result = .error f) :
    ∃ left : List Line, a.step.after = { a with feed := ⟨left⟩ } ∧
      (2 ≤ l.tokens.length ∨ (∀ op args, l.Calls a.table op args → op.form ≠ .immediate) →
        left = rest) ∧
      (∀ op, l.Calls a.table op [] → op.form = .immediate →
        (∀ blanks q after, rest = blanks ++ q :: after → (∀ z ∈ blanks, z.isBlank = true) →
          q.isBlank = false → left = after ∧ ∃ u, q.firstToken? = some u ∧
            u.byte = .error .malformed ∧ f = ⟨q.number, .badOperand op.name u⟩) ∧
        ((∀ z ∈ rest, z.isBlank = true) → f = ⟨l.number, .missingImmediate op.name⟩)) ∧
      (∀ name, f.cause = .missingImmediate name → left = []) ∧
      (∀ s : Session, (Session.step s).emissions a =
        (s.emissions (.start a.table left)).map (Emission.moved a.address)) ∧
      ∀ n, a.step.after.answers n = ((Assembler.start a.table left).answers n).map
          (Except.map (Option.map (Emission.moved a.address))) ∧
        (a.step.after.stepped n).run.result =
          ((Assembler.start a.table left).stepped n).run.result.map
            fun L => ⟨a.listing.emissions ++ (L.moved a.address).emissions⟩ := by
  obtain ⟨k, hk, hafter⟩ := a.exists_faulty_of_step hfeed hf
  -- all that tells the assembler from a new one on the lines left is its address and its listing
  have hmoved : a.step.after =
      (Assembler.start a.table (k.taken ⟨rest⟩).rest.remaining).moved a.address a.listing := by
    rw [hafter]
    simp [Assembler.moved, Assembler.start, Listing.moved]
  refine ⟨(k.taken ⟨rest⟩).rest.remaining, hafter, fun hown => ?_, fun op hl hform => ⟨?_, ?_⟩,
    fun name hcause => ?_, fun s => ?_, fun n => ⟨?_, ?_⟩⟩
  · rw [hk.taken_of_own hown]
  · intro blanks q after hrest hblanks hq
    cases htokens : q.tokens with
    | nil => simp [Line.isBlank_iff.2 htokens] at hq
    | cons u args =>
      obtain ⟨htaken, hu, hfault⟩ := hk.taken_of_ahead hl hform hrest hblanks htokens
      refine ⟨by rw [htaken], u, ?_, hu, hfault⟩
      rw [Line.firstToken?, htokens, List.head?_cons]
  · intro hblank
    exact (hk.unique (.noByte hl hform hblank)).2
  · rw [hk.taken_of_missing hcause]
  · have hnone : a.step.emissions = [] := by rw [Step.emissions, hf]
    rw [Session.emissions, hnone, List.nil_append, hmoved, Session.emissions_moved]
  · rw [hmoved, Assembler.answers_moved]
  · rw [hmoved, Assembler.stepped_moved, Assembler.run_moved_result]

/-- A load at address seven takes the halt for its operand and fails; what follows is assembled at
address seven. Before blank lines only, it takes all of them. -/
theorem step_after_fault_load :
    (⟨.withImmediate, ⟨[⟨2, "LDI"⟩, ⟨3, ""⟩, ⟨4, "HLT"⟩, ⟨5, "3F"⟩]⟩, 7, ⟨[]⟩⟩ :
        Assembler).step.result =
      .error ⟨4, .badOperand "LDI" "HLT"⟩ ∧
    (⟨.withImmediate, ⟨[⟨2, "LDI"⟩, ⟨3, ""⟩, ⟨4, "HLT"⟩, ⟨5, "3F"⟩]⟩, 7, ⟨[]⟩⟩ :
        Assembler).step.after =
      ⟨.withImmediate, ⟨[⟨5, "3F"⟩]⟩, 7, ⟨[]⟩⟩ ∧
    (⟨.withImmediate, ⟨[⟨5, "3F"⟩]⟩, 7, ⟨[]⟩⟩ : Assembler).run.result =
      .ok ⟨[⟨⟨5, "3F"⟩, 7, [0x3F]⟩]⟩ ∧
    (⟨.withImmediate, ⟨[⟨2, "LDI"⟩, ⟨3, ""⟩]⟩, 7, ⟨[]⟩⟩ : Assembler).step.after =
      ⟨.withImmediate, ⟨[]⟩, 7, ⟨[]⟩⟩ := by
  have hcalls : (⟨2, "LDI"⟩ : Line).Calls .withImmediate ⟨"LDI", .immediate, 0xC0⟩ [] :=
    ⟨"LDI", by cbv, by cbv, Table.find?_eq_some_iff.1 (by cbv)⟩
  have hbad : (⟨.withImmediate, ⟨[⟨2, "LDI"⟩, ⟨3, ""⟩, ⟨4, "HLT"⟩, ⟨5, "3F"⟩]⟩, 7, ⟨[]⟩⟩ :
      Assembler).step.result = .error ⟨4, .badOperand "LDI" "HLT"⟩ := by cbv
  have hmissing : (⟨.withImmediate, ⟨[⟨2, "LDI"⟩, ⟨3, ""⟩]⟩, 7, ⟨[]⟩⟩ : Assembler).step.result =
      .error ⟨2, .missingImmediate "LDI"⟩ := by cbv
  obtain ⟨left, hafter, -, hahead, -, -, hlater⟩ := step_after_fault rfl hbad
  have hblanks : ∀ z ∈ [(⟨3, ""⟩ : Line)], z.isBlank = true := List.forall_mem_singleton.2 (by cbv)
  obtain ⟨rfl, -⟩ := (hahead _ hcalls rfl).1 [⟨3, ""⟩] ⟨4, "HLT"⟩ _ rfl hblanks (by cbv)
  refine ⟨hbad, hafter, ?_, ?_⟩
  · rw [← hafter]
    exact (hlater 0).2.trans (by cbv)
  · obtain ⟨left, hafter, -, -, hnone, -⟩ := step_after_fault rfl hmissing
    rw [hafter, hnone "LDI" rfl]

end NibbleAsm
