import Mathlib
import NibbleAsm.Proofs.Instruction

/-! The grammar of sources. A program is instructions one after the other, and every source is the
lines of a program, up to its end or up to a line in trouble (`exists_program`). Assembly succeeds
just on the lines of programs, and what it gives is read off the program; otherwise it gives the
fault of that line. -/

namespace NibbleAsm

abbrev Program (T : Table) := List (Instruction T)

namespace Program

variable {T : Table}

/-- The source that the instructions make up. -/
def lines (p : Program T) : List Line :=
  p.flatMap Instruction.lines

def size (p : Program T) : ℕ :=
  (p.map fun i => i.bytes.length).sum

/-- One emission for each instruction, where the bytes of the first stand at the address. -/
def emissions (address : ℕ) : Program T → List Emission
  | [] => []
  | i :: p => ⟨i.line, address, i.bytes⟩ :: emissions (address + i.bytes.length) p

def listing (p : Program T) : Listing :=
  ⟨p.emissions 0⟩

theorem lines_cons (i : Instruction T) (p : Program T) :
    Program.lines (i :: p) = i.line :: (i.more ++ p.lines) := rfl

theorem size_cons (i : Instruction T) (p : Program T) :
    Program.size (i :: p) = i.bytes.length + p.size := by
  rw [size, List.map_cons, List.sum_cons, size]

theorem map_line_emissions (address : ℕ) (p : Program T) :
    (p.emissions address).map Emission.line = p.map Instruction.line := by
  induction p generalizing address with
  | nil => rfl
  | cons i p ih => rw [emissions, List.map_cons, List.map_cons, ih]

theorem bytes_listing (p : Program T) : p.listing.bytes = p.flatMap Instruction.bytes := by
  have h : ∀ address, (⟨p.emissions address⟩ : Listing).bytes = p.flatMap Instruction.bytes := by
    induction p with
    | nil => exact fun _ => rfl
    | cons i p ih =>
      intro address
      have hrest := ih (address + i.bytes.length)
      rw [Listing.bytes] at hrest ⊢
      rw [emissions, List.flatMap_cons, List.flatMap_cons, hrest]
  exact h 0

/-- There is one way at most to cut a source into instructions. -/
theorem lines_injective : Function.Injective (Program.lines (T := T)) := by
  intro p q h
  induction p generalizing q with
  | nil =>
    cases q with
    | nil => rfl
    | cons j q => cases h
  | cons i p ih =>
    cases q with
    | nil => cases h
    | cons j q =>
      obtain ⟨rfl, hrest⟩ := Instruction.unique h
      rw [ih hrest]

end Program

namespace Assembler

variable {T : Table} (before : Listing)

theorem collect_nil (address : ℕ) : collect ⟨T, ⟨[]⟩, address, before⟩ = ⟨.ok [], []⟩ := by
  rw [collect]

theorem collect_instruction (i : Instruction T) (rest : List Line) (address : ℕ) :
    collect ⟨T, ⟨i.line :: (i.more ++ rest)⟩, address, before⟩ =
      ⟨(collect ⟨T, ⟨rest⟩, address + i.bytes.length, before⟩).result.map
          (⟨i.line, address, i.bytes⟩ :: ·),
        Event.ofSkipped i.more.dropLast ++ .emitted ⟨i.line, address, i.bytes⟩ ::
          (collect ⟨T, ⟨rest⟩, address + i.bytes.length, before⟩).log⟩ := by
  rw [collect]
  simp only [stepLine, i.shape.encode_eq rest, List.append_assoc, List.singleton_append]

theorem collect_faulty {l : Line} {rest : List Line} {k : Trouble} {f : Fault}
    (h : Faulty T l rest k f) (address : ℕ) :
    collect ⟨T, ⟨l :: rest⟩, address, before⟩ =
      ⟨.error f, Event.ofSkipped (k.taken ⟨rest⟩).skipped⟩ := by
  rw [collect]
  simp only [stepLine, h.encode_eq]

/-- The lines of a program give its emissions, and what follows is taken up at the next address. -/
theorem collect_program (p : Program T) (rest : List Line) (address : ℕ) :
    (collect ⟨T, ⟨p.lines ++ rest⟩, address, before⟩).result =
      (collect ⟨T, ⟨rest⟩, address + p.size, before⟩).result.map (p.emissions address ++ ·) := by
  induction p generalizing address with
  | nil =>
    change (collect ⟨T, ⟨rest⟩, address, before⟩).result =
      (collect ⟨T, ⟨rest⟩, address, before⟩).result.map id
    rw [Except.map_id, id]
  | cons i p ih =>
    rw [Program.lines_cons, List.cons_append, List.append_assoc, collect_instruction, ih,
      Program.size_cons, Nat.add_assoc]
    dsimp only
    cases (collect ⟨T, ⟨rest⟩, address + (i.bytes.length + Program.size p), before⟩).result with
    | error f => rfl
    | ok es => rfl

theorem collect_lines (p : Program T) (address : ℕ) :
    (collect ⟨T, ⟨p.lines⟩, address, before⟩).result = .ok (p.emissions address) := by
  have h := collect_program before p [] address
  rw [List.append_nil, collect_nil] at h
  simpa only [Except.map, List.append_nil] using h

end Assembler

/-- Every source is a program followed by nothing or by a line in trouble. -/
theorem exists_program (T : Table) (lines : List Line) :
    ∃ p : Program T, lines = p.lines ∨
      ∃ l rest k f, lines = p.lines ++ l :: rest ∧ Faulty T l rest k f := by
  -- an instruction takes one line at least, so what follows it is shorter
  induction h : lines.length using Nat.strong_induction_on generalizing lines with
  | _ n ih =>
    cases lines with
    | nil => exact ⟨[], Or.inl rfl⟩
    | cons l rest =>
      rcases exists_instruction_or_faulty T l rest with ⟨i, after, hi⟩ | ⟨k, f, hf⟩
      · have hlength : after.length < n := by
          rw [← h, hi, List.length_append, Instruction.lines, List.length_cons]
          omega
        obtain ⟨p, rfl | ⟨l', rest', k, f, rfl, hf⟩⟩ := ih after.length hlength after rfl
        · exact ⟨i :: p, Or.inl hi⟩
        · refine ⟨i :: p, Or.inr ⟨l', rest', k, f, ?_, hf⟩⟩
          rw [hi, ← List.append_assoc]
          rfl
      · exact ⟨[], Or.inr ⟨l, rest, k, f, rfl, hf⟩⟩

theorem assembleLines_program {T : Table} (p : Program T) :
    (assembleLines T p.lines).result = .ok p.listing := by
  rw [assembleLines, Assembler.start, Assembler.run_result, Assembler.collect_lines]
  rfl

theorem assembleLines_faulty {T : Table} (p : Program T) {l : Line} {rest : List Line}
    {k : Trouble} {f : Fault} (hf : Faulty T l rest k f) :
    (assembleLines T (p.lines ++ l :: rest)).result = .error f := by
  rw [assembleLines, Assembler.start, Assembler.run_result, Assembler.collect_program,
    Assembler.collect_faulty _ hf]
  rfl

theorem exists_program_of_ok {T : Table} {lines : List Line} {L : Listing}
    (h : (assembleLines T lines).result = .ok L) :
    ∃ p : Program T, p.lines = lines ∧ p.listing = L := by
  obtain ⟨p, rfl | ⟨l, rest, k, f, rfl, hf⟩⟩ := exists_program T lines
  · rw [assembleLines_program] at h
    exact ⟨p, rfl, Except.ok.inj h⟩
  · rw [assembleLines_faulty p hf] at h
    cases h

theorem exists_faulty_of_error {T : Table} {lines : List Line} {f : Fault}
    (h : (assembleLines T lines).result = .error f) :
    ∃ (p : Program T) (l : Line) (rest : List Line) (k : Trouble),
      lines = p.lines ++ l :: rest ∧ Faulty T l rest k f := by
  obtain ⟨p, rfl | ⟨l, rest, k, f', rfl, hf⟩⟩ := exists_program T lines
  · rw [assembleLines_program] at h
    cases h
  · rw [assembleLines_faulty p hf] at h
    exact ⟨p, l, rest, k, rfl, Except.error.inj h ▸ hf⟩

def Table.withImmediate : Table :=
  ⟨[⟨"LDA", 0x10⟩], [⟨"HLT", 0x50⟩], [⟨"LDI", 0xC0⟩]⟩

example : (assembleLines .withImmediate [⟨1, "ldi"⟩, ⟨2, ""⟩, ⟨3, "9"⟩, ⟨4, ""⟩]).result =
    .ok ⟨[⟨⟨1, "ldi"⟩, 0, [0xC0, 9]⟩, ⟨⟨4, ""⟩, 2, [0]⟩]⟩ := by
  cbv

end NibbleAsm
