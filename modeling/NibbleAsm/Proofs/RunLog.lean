import NibbleAsm.Proofs.Grammar

/-! The log of a run. An instruction logs the blank lines that it passes over and then its emission,
and a program is logged instruction by instruction. So the log of a run can be read off the cut of
its source, and on success every line of the source is told of once: an instruction starts on it, or
it was passed over, or it holds an operand. -/

namespace NibbleAsm

def Event.entry (e : Event) : Level × String :=
  (e.level, e.message)

def Line.skipEntry (z : Line) : Level × String :=
  (.trace, s!"skipping blank line {z.number}")

/-- The address in four digits at least, the number of the line in four columns, its source without
the blanks around it, and the bytes. -/
def Emission.entry (e : Emission) : Level × String :=
  (.debug, "0x" ++ String.ofList (((Nat.toDigits 16 e.address).map Char.toUpper).leftpad 4 '0') ++
    ": " ++ String.ofList ((Nat.toDigits 10 e.line.number).leftpad 4 ' ') ++
    ": " ++ e.line.trimmed ++ " => " ++
    String.ofList ([' '].intercalate (e.bytes.map fun b =>
      [Nat.digitChar (b.toNat / 16), Nat.digitChar (b.toNat % 16)])))

def Listing.entry (L : Listing) : Level × String :=
  (.info, s!"assembled {L.emissions.length} line(s) into {L.bytes.length} byte(s)")

/-- An immediate opcode stands alone on the line, so that its operand is looked for further on. -/
def Line.Awaits (T : Table) (l : Line) : Prop :=
  ∃ op, l.Calls T op [] ∧ op.form = .immediate

namespace Instruction

variable {T : Table} (i : Instruction T)

def skipped : List Line :=
  i.more.dropLast

def operandLine? : Option Line :=
  i.more.getLast?

theorem lines_eq : i.lines = i.line :: (i.skipped ++ i.operandLine?.toList) := by
  rw [lines, skipped, operandLine?]
  cases h : i.more.getLast? with
  | none => rw [List.getLast?_eq_none_iff.1 h]; rfl
  | some q => rw [Option.toList_some, List.dropLast_append_getLast? q h]

variable {i}

theorem isBlank_of_mem_skipped {z : Line} (hz : z ∈ i.skipped) : z.isBlank = true := by
  obtain ⟨l, more, bytes, h⟩ := i
  cases h with
  | lookahead hl hform hblanks hq hu =>
    rw [skipped, List.dropLast_concat] at hz
    exact hblanks z hz
  | _ => cases hz

/-- A line besides the first holds the operand of an opcode that stands alone. -/
theorem of_operandLine? {q : Line} (hq : i.operandLine? = some q) :
    q.isBlank = false ∧ ∃ op u x, i.line.Calls T op [] ∧ op.form = .immediate ∧
      q.firstToken? = some u ∧ u.byte = .ok x ∧ i.bytes = [op.base, x] := by
  obtain ⟨l, more, bytes, h⟩ := i
  cases h with
  | lookahead hl hform hblanks hq' hu =>
    rw [operandLine?, List.getLast?_concat] at hq
    obtain rfl := Option.some.inj hq
    refine ⟨Line.not_isBlank_of_tokens hq', _, _, _, hl, hform, ?_, hu, rfl⟩
    rw [Line.firstToken?, hq', List.head?_cons]
  | _ => cases hq

end Instruction

inductive Role where
  | opening
  | skipped
  | operand
deriving DecidableEq, Repr

namespace Instruction

variable {T : Table}

def roles (i : Instruction T) : List (Line × Role) :=
  (i.line, .opening) :: (i.skipped.map (·, .skipped) ++ i.operandLine?.toList.map (·, .operand))

def linesOf (i : Instruction T) : Role → List Line
  | .opening => [i.line]
  | .skipped => i.skipped
  | .operand => i.operandLine?.toList

theorem map_fst_roles (i : Instruction T) : i.roles.map Prod.fst = i.lines := by
  rw [i.lines_eq]
  simp [roles, Function.comp_def]

theorem linesOf_eq (i : Instruction T) (role : Role) :
    (i.roles.filter (·.2 = role)).map Prod.fst = i.linesOf role := by
  cases role <;> simp [roles, linesOf, List.filter_map, Function.comp_def]

end Instruction

namespace Program

variable {T : Table}

def roles (p : Program T) : List (Line × Role) :=
  p.flatMap Instruction.roles

def linesOf (role : Role) (p : Program T) : List Line :=
  (p.roles.filter (·.2 = role)).map Prod.fst

/-- What the instructions log, where these are the emissions that they give. -/
def entries (p : Program T) (es : List Emission) : List (Level × String) :=
  (p.zip es).flatMap fun g => g.1.skipped.map Line.skipEntry ++ [g.2.entry]

theorem map_fst_roles (p : Program T) : p.roles.map Prod.fst = p.lines := by
  rw [roles, lines, List.map_flatMap]
  simp only [Instruction.map_fst_roles]

theorem linesOf_eq (role : Role) (p : Program T) :
    p.linesOf role = p.flatMap fun i => i.linesOf role := by
  rw [linesOf, roles, List.filter_flatMap, List.map_flatMap]
  simp only [Instruction.linesOf_eq]

theorem linesOf_opening (p : Program T) :
    p.linesOf .opening = p.listing.emissions.map Emission.line := by
  rw [linesOf_eq, listing, map_line_emissions, List.map_eq_flatMap]
  rfl

theorem entries_cons (i : Instruction T) (p : Program T) (e : Emission) (es : List Emission) :
    Program.entries (i :: p) (e :: es) =
      i.skipped.map Line.skipEntry ++ e.entry :: p.entries es := by
  simp [entries]

/-- Of what a program logs, the lines that it passed over are all that is of the level trace. -/
theorem filter_trace_entries (address : ℕ) (p : Program T) :
    (p.entries (p.emissions address)).filter (·.1 = .trace) =
      (p.linesOf .skipped).map Line.skipEntry := by
  rw [linesOf_eq]
  induction p generalizing address with
  | nil => rfl
  | cons i p ih =>
    rw [emissions, entries_cons, List.filter_append, List.filter_cons, ih]
    simp [Instruction.linesOf, Line.skipEntry, Emission.entry, List.filter_map, Function.comp_def]

theorem exists_emission_of_mem {i : Instruction T} {p : Program T} (h : i ∈ p) (address : ℕ) :
    ∃ e ∈ p.emissions address, e.line = i.line ∧ e.bytes = i.bytes := by
  induction p generalizing address with
  | nil => cases h
  | cons j p ih =>
    rcases List.mem_cons.1 h with rfl | h
    · exact ⟨_, List.mem_cons_self, rfl, rfl⟩
    · obtain ⟨e, he, hsame⟩ := ih h (address + j.bytes.length)
      exact ⟨e, List.mem_cons_of_mem _ he, hsame⟩

end Program

theorem Event.map_entry_ofSkipped (lines : List Line) :
    (ofSkipped lines).map entry = lines.map Line.skipEntry := by
  rw [ofSkipped, List.map_map]
  rfl

theorem Emission.text_entry (e : Emission) : e.entry.2 = e.addressLabel ++ " " ++ e.display := by
  have hcolon (rest : String) : ": " ++ rest = ":" ++ (" " ++ rest) := by
    have hliteral : ": " = ":" ++ " " := rfl
    rw [hliteral, String.append_assoc]
  rw [entry, addressLabel, display, hex, Text.hexAddress, Text.hexPairs]
  unfold Text.hexPair
  simp only [String.append_assoc, hcolon]

theorem Event.entry_emitted (e : Emission) : (emitted e).entry = e.entry :=
  Prod.ext rfl e.text_entry.symm

namespace Assembler

/-- The log of a program is the one of its instructions, and what follows is logged after it. -/
theorem log_collect_program {T : Table} (before : Listing) (p : Program T) (rest : List Line)
    (address : ℕ) :
    (collect ⟨T, ⟨p.lines ++ rest⟩, address, before⟩).log.map Event.entry =
      p.entries (p.emissions address) ++
        (collect ⟨T, ⟨rest⟩, address + p.size, before⟩).log.map Event.entry := by
  induction p generalizing address with
  | nil => rfl
  | cons i p ih =>
    rw [Program.lines_cons, List.cons_append, List.append_assoc, collect_instruction]
    simp only [List.map_append, List.map_cons, Event.map_entry_ofSkipped, Event.entry_emitted, ih]
    rw [Program.emissions, Program.entries_cons, Program.size_cons, Nat.add_assoc,
      List.append_assoc]
    rfl

theorem log_run_of_ok {a : Assembler} {L : Listing} (h : a.run.result = .ok L) :
    a.run.log = a.collect.log ++ [.assembled L.emissions.length L.size] := by
  revert h
  rw [run]
  cases a.collect.result with
  | error f =>
    intro h
    cases h
  | ok es =>
    intro h
    rw [← Except.ok.inj h]

theorem log_run_of_error {a : Assembler} {f : Fault} (h : a.run.result = .error f) :
    a.run.log = a.collect.log := by
  revert h
  rw [run]
  cases a.collect.result with
  | error f' =>
    intro
    rfl
  | ok es =>
    intro h
    cases h

end Assembler

theorem entries_program {T : Table} (p : Program T) :
    (assembleLines T p.lines).log.map Event.entry =
      p.entries p.listing.emissions ++ [p.listing.entry] := by
  have hlog := Assembler.log_collect_program ⟨[]⟩ p [] 0
  rw [List.append_nil, Assembler.collect_nil, List.map_nil, List.append_nil] at hlog
  rw [assembleLines, Assembler.log_run_of_ok (assembleLines_program p), Assembler.start,
    List.map_append, hlog, Listing.entry, Listing.length_bytes]
  rfl

theorem entries_faulty {T : Table} (p : Program T) {l : Line} {rest : List Line} {k : Trouble}
    {f : Fault} (hf : Faulty T l rest k f) :
    (assembleLines T (p.lines ++ l :: rest)).log.map Event.entry =
      p.entries p.listing.emissions ++ (k.taken ⟨rest⟩).skipped.map Line.skipEntry := by
  rw [assembleLines, Assembler.log_run_of_error (assembleLines_faulty p hf), Assembler.start,
    Assembler.log_collect_program, Assembler.collect_faulty _ hf, Event.map_entry_ofSkipped]
  rfl

/-- What an instruction in trouble passes over: the blank lines that follow an opcode which awaits
its operand, and nothing in any other trouble. -/
theorem Faulty.skipped_eq {T : Table} {l : Line} {rest : List Line} {k : Trouble} {f : Fault}
    (h : Faulty T l rest k f) :
    (l.Awaits T → (k.taken ⟨rest⟩).skipped = rest.takeWhile Line.isBlank) ∧
      (¬ l.Awaits T → (k.taken ⟨rest⟩).skipped = []) := by
  constructor
  · rintro ⟨op, hl, hform⟩
    have hskipped : ((l.statement T).encode l ⟨rest⟩).skipped = (k.taken ⟨rest⟩).skipped := by
      rw [h.encode_eq]
    rw [← hskipped, Line.statement_of_calls hl, Statement.ofOpcode, hform]
    simp only [List.head?_nil, Statement.encode]
    split
    · rfl
    · split <;> rfl
  · intro hnot
    cases h with
    | badByteAhead hl hform => exact absurd ⟨_, hl, hform⟩ hnot
    | noByte hl hform => exact absurd ⟨_, hl, hform⟩ hnot
    | _ => rfl

def Logged.under {α : Type} (limit : Option Level) (r : Logged α) : Logged α :=
  { r with log := Event.shown limit r.log }

theorem Event.map_entry_shown (limit : Option Level) (log : List Event) :
    (shown limit log).map entry = (log.map entry).filter fun m => m.1.shownAt limit := by
  rw [shown, List.filter_map]
  rfl

theorem Event.shown_trace (log : List Event) : shown (some .trace) log = log := by
  apply List.filter_eq_self.2
  intro e _
  cases e <;> rfl

/-- The lines of a program that hold operands, each for an emission of the listing. -/
theorem Program.of_mem_linesOf_operand {T : Table} {p : Program T} {q : Line}
    (hq : q ∈ p.linesOf .operand) :
    q.isBlank = false ∧ ∃ e ∈ p.listing.emissions, ∃ op u x, e.line.Calls T op [] ∧
      op.form = .immediate ∧ q.firstToken? = some u ∧ u.byte = .ok x ∧
      e.bytes = [op.base, x] := by
  rw [linesOf_eq] at hq
  obtain ⟨i, hi, hq⟩ := List.mem_flatMap.1 hq
  obtain ⟨hblank, op, u, x, hl, hform, hu, hx, hbytes⟩ :=
    Instruction.of_operandLine? (Option.mem_toList.1 hq)
  obtain ⟨e, he, hline, hsame⟩ := exists_emission_of_mem hi 0
  refine ⟨hblank, e, he, op, u, x, ?_, hform, hu, hx, hsame.trans hbytes⟩
  rwa [hline]

theorem Program.isBlank_of_mem_linesOf_skipped {T : Table} {p : Program T} {z : Line}
    (hz : z ∈ p.linesOf .skipped) : z.isBlank = true := by
  rw [linesOf_eq] at hz
  obtain ⟨i, -, hz⟩ := List.mem_flatMap.1 hz
  exact Instruction.isBlank_of_mem_skipped hz

/-- The log of a run that succeeds is the one of the instructions of its source, each with the
emission it gave, and a last entry with the counts; each line has one role, the lines on which
emissions start and those passed over being the ones that the log tells of. The log of a run that
fails is the one of the instructions before the fault, and then the lines that the line in trouble
passed over. What a limit shows of a log is the entries within it, and the result is the same. -/
theorem assembleLines_log (T : Table) (lines : List Line) :
    (∀ L, (assembleLines T lines).result = .ok L →
      ∃ p : Program T, p.lines = lines ∧ p.listing = L ∧
        (assembleLines T lines).log.map Event.entry = p.entries L.emissions ++ [L.entry] ∧
        p.roles.map Prod.fst = lines ∧
        p.linesOf .opening = L.emissions.map Emission.line ∧
        (p.linesOf .skipped).map Line.skipEntry =
          ((assembleLines T lines).log.map Event.entry).filter (·.1 = .trace) ∧
        (∀ z ∈ p.linesOf .skipped, z.isBlank = true) ∧
        ∀ q ∈ p.linesOf .operand, q.isBlank = false ∧
          ∃ e ∈ L.emissions, ∃ op u x, e.line.Calls T op [] ∧ op.form = .immediate ∧
            q.firstToken? = some u ∧ u.byte = .ok x ∧ e.bytes = [op.base, x]) ∧
    (∀ f, (assembleLines T lines).result = .error f →
      ∃ (p : Program T) (l : Line) (rest skipped : List Line),
        lines = p.lines ++ l :: rest ∧ (∃ k, Faulty T l rest k f) ∧
        (assembleLines T lines).log.map Event.entry =
          p.entries p.listing.emissions ++ skipped.map Line.skipEntry ∧
        (l.Awaits T → skipped = rest.takeWhile Line.isBlank) ∧
        (¬ l.Awaits T → skipped = [])) ∧
    ((assembleLines T lines).under (some .trace)).log = (assembleLines T lines).log ∧
    ∀ limit, ((assembleLines T lines).under limit).result = (assembleLines T lines).result ∧
      ((assembleLines T lines).under limit).log.map Event.entry =
        ((assembleLines T lines).log.map Event.entry).filter fun m => m.1.shownAt limit := by
  refine ⟨?_, ?_, Event.shown_trace _, fun limit => ⟨rfl, Event.map_entry_shown limit _⟩⟩
  · intro L hL
    obtain ⟨p, rfl, rfl⟩ := exists_program_of_ok hL
    have hentries := entries_program p
    refine ⟨p, rfl, rfl, hentries, p.map_fst_roles, p.linesOf_opening, ?_,
      fun z => p.isBlank_of_mem_linesOf_skipped, fun q => p.of_mem_linesOf_operand⟩
    have htrace := p.filter_trace_entries 0
    rw [hentries, List.filter_append, Program.listing, htrace]
    simp [Listing.entry]
  · intro f hf
    obtain ⟨p, l, rest, k, rfl, hk⟩ := exists_faulty_of_error hf
    exact ⟨p, l, rest, _, rfl, ⟨k, hk⟩, entries_faulty p hk, hk.skipped_eq⟩

/-- A load passes over a blank line and a halt follows; then a load that finds no operand after the
same blank line. -/
theorem assembleLines_log_load :
    (∃ p : Program .withImmediate, p.lines = [⟨1, "LDI"⟩, ⟨2, ""⟩, ⟨3, "9"⟩, ⟨4, "HLT"⟩] ∧
      p.linesOf .opening = [⟨1, "LDI"⟩, ⟨4, "HLT"⟩] ∧
      (p.linesOf .skipped).map Line.skipEntry = [(.trace, "skipping blank line 2")]) ∧
    (∃ (p : Program .withImmediate) (l : Line) (rest skipped : List Line),
      [⟨1, "HLT"⟩, ⟨2, "LDI"⟩, ⟨3, ""⟩, ⟨4, "HLT"⟩] = p.lines ++ l :: rest ∧
      p.entries p.listing.emissions ++ skipped.map Line.skipEntry =
        [(.debug, "0x0000:    1: HLT => 50"), (.trace, "skipping blank line 3")]) ∧
    ((assembleLines .withImmediate [⟨1, "LDI"⟩, ⟨2, ""⟩, ⟨3, "9"⟩, ⟨4, "HLT"⟩]).under
      (some .info)).log.map Event.entry = [(.info, "assembled 2 line(s) into 3 byte(s)")] := by
  have hok : (assembleLines .withImmediate [⟨1, "LDI"⟩, ⟨2, ""⟩, ⟨3, "9"⟩, ⟨4, "HLT"⟩]).result =
      .ok ⟨[⟨⟨1, "LDI"⟩, 0, [0xC0, 9]⟩, ⟨⟨4, "HLT"⟩, 2, [0x50]⟩]⟩ := by cbv
  have hokLog : (assembleLines .withImmediate [⟨1, "LDI"⟩, ⟨2, ""⟩, ⟨3, "9"⟩, ⟨4, "HLT"⟩]).log =
      [.blankSkipped 2, .emitted ⟨⟨1, "LDI"⟩, 0, [0xC0, 9]⟩, .emitted ⟨⟨4, "HLT"⟩, 2, [0x50]⟩,
        .assembled 2 3] := by cbv
  have hbad : (assembleLines .withImmediate
      [⟨1, "HLT"⟩, ⟨2, "LDI"⟩, ⟨3, ""⟩, ⟨4, "HLT"⟩]).result =
      .error ⟨4, .badOperand "LDI" "HLT"⟩ := by cbv
  have hbadLog : (assembleLines .withImmediate
      [⟨1, "HLT"⟩, ⟨2, "LDI"⟩, ⟨3, ""⟩, ⟨4, "HLT"⟩]).log =
      [.emitted ⟨⟨1, "HLT"⟩, 0, [0x50]⟩, .blankSkipped 3] := by cbv
  obtain ⟨hsuccess, -, -, hlimit⟩ := assembleLines_log .withImmediate
    [⟨1, "LDI"⟩, ⟨2, ""⟩, ⟨3, "9"⟩, ⟨4, "HLT"⟩]
  refine ⟨?_, ?_, ?_⟩
  · obtain ⟨p, hp, -, -, -, hopening, hskipped, -⟩ := hsuccess _ hok
    refine ⟨p, hp, hopening, ?_⟩
    rw [hskipped, hokLog]
    rfl
  · obtain ⟨p, l, rest, skipped, hlines, -, hentries, -⟩ := (assembleLines_log _ _).2.1 _ hbad
    refine ⟨p, l, rest, skipped, hlines, ?_⟩
    rw [← hentries, hbadLog]
    rfl
  · rw [(hlimit (some .info)).2, hokLog]
    rfl

end NibbleAsm
