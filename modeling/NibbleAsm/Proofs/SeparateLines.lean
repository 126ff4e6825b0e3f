import NibbleAsm.Proofs.Composition

/-! Tables without immediate opcodes, such as the standard one. No line then looks past its own end,
so a source is its lines one by one: each gives one byte, the one it gives as a source of its own,
and assembly stops at the first line that fails by itself. -/

namespace NibbleAsm

variable {T : Table} {l : Line}

/-- As a source of its own the line gives the one byte `b`. -/
def Line.Yields (T : Table) (l : Line) (b : UInt8) : Prop :=
  (assembleLines T [l]).result = .ok ⟨[⟨l, 0, [b]⟩]⟩

theorem Table.form_ne_immediate (hT : T.immediate = []) {op : Opcode} (hop : op ∈ T.opcodes) :
    op.form ≠ .immediate := by
  unfold opcodes at hop
  simp only [hT, List.map_nil, List.append_nil, List.mem_append, List.mem_map] at hop
  rcases hop with ⟨e, -, rfl⟩ | ⟨e, -, rfl⟩ <;> simp [Entry.opcode]

theorem Shape.exists_byte (hT : T.immediate = []) {more : List Line} {bytes : List UInt8}
    (h : Shape T l more bytes) : ∃ b, bytes = [b] := by
  cases h with
  | pad => exact ⟨0, rfl⟩
  | literal => exact ⟨_, rfl⟩
  | packed => exact ⟨_, rfl⟩
  | single => exact ⟨_, rfl⟩
  | immediate hl hform => exact absurd hform (Table.form_ne_immediate hT hl.mem_opcodes)
  | lookahead hl hform => exact absurd hform (Table.form_ne_immediate hT hl.mem_opcodes)

theorem Faulty.cause_ne_missingImmediate (hT : T.immediate = []) {rest : List Line} {k : Trouble}
    {f : Fault} (h : Faulty T l rest k f) (name : String) : f.cause ≠ .missingImmediate name := by
  intro hcause
  cases h with
  | noByte hl hform => exact Table.form_ne_immediate hT hl.mem_opcodes hform
  | _ => cases hcause

/-- A line by itself gives one byte or fails, and not for want of a line after it. -/
theorem Line.exists_yields_or_error (hT : T.immediate = []) (l : Line) :
    (∃ b, l.Yields T b) ∨ ∃ f, (assembleLines T [l]).result = .error f ∧
      ∀ name, f.cause ≠ .missingImmediate name := by
  rcases exists_instruction_or_faulty T l [] with ⟨i, after, hi⟩ | ⟨k, f, hf⟩
  · left
    obtain ⟨b, hb⟩ := i.shape.exists_byte hT
    obtain ⟨rfl, hmore⟩ : l = i.line ∧ [] = i.more ++ after := List.cons.inj hi
    have hlines : Program.lines [i] = [i.line] := by
      rw [Program.lines_cons, (List.append_eq_nil_iff.1 hmore.symm).1]
      rfl
    have h := assembleLines_program [i]
    rw [hlines, Program.listing, Program.emissions, Program.emissions, hb] at h
    exact ⟨b, h⟩
  · right
    exact ⟨f, assembleLines_faulty [] hf, hf.cause_ne_missingImmediate hT⟩

theorem Line.exists_yields_iff (hT : T.immediate = []) (l : Line) :
    (∃ b, l.Yields T b) ↔ ∃ L, (assembleLines T [l]).result = .ok L := by
  constructor
  · rintro ⟨b, hb⟩
    exact ⟨_, hb⟩
  · rintro ⟨L, hL⟩
    rcases l.exists_yields_or_error hT with hb | ⟨f, hf, -⟩
    · exact hb
    · cases hL.symm.trans hf

/-- What lines give one after the other when each has a byte. -/
def Listing.ofBytes (b : Line → UInt8) (lines : List Line) : Listing :=
  ⟨lines.zipIdx.map fun p => ⟨p.1, p.2, [b p.1]⟩⟩

theorem Listing.getElem?_ofBytes (b : Line → UInt8) (lines : List Line) (i : ℕ) :
    (ofBytes b lines).emissions[i]? = lines[i]?.map fun l => ⟨l, i, [b l]⟩ := by
  simp only [ofBytes, List.getElem?_map, List.getElem?_zipIdx, Option.map_map, Nat.zero_add]
  rfl

theorem Listing.of_mem_ofBytes {b : Line → UInt8} {lines : List Line} {e : Emission}
    (he : e ∈ (ofBytes b lines).emissions) : e.line ∈ lines ∧ e.bytes = [b e.line] := by
  obtain ⟨p, hp, rfl⟩ := List.mem_map.1 he
  exact ⟨List.fst_mem_of_mem_zipIdx hp, rfl⟩

theorem Listing.bytes_ofBytes (b : Line → UInt8) (lines : List Line) :
    (ofBytes b lines).bytes = lines.map b := by
  unfold bytes ofBytes
  rw [List.flatMap_map, ← List.map_eq_flatMap]
  calc lines.zipIdx.map (fun p => b p.1) = (lines.zipIdx.map Prod.fst).map b := by
        rw [List.map_map]; rfl
    _ = lines.map b := by rw [List.zipIdx_map_fst]

/-- Lines that each give a byte by themselves give these bytes one after the other. -/
theorem assembleLines_of_yields {b : Line → UInt8} {lines : List Line}
    (h : ∀ l ∈ lines, l.Yields T (b l)) :
    (assembleLines T lines).result = .ok (.ofBytes b lines) := by
  induction lines with
  | nil => exact assembleLines_program []
  | cons l lines ih =>
    have hl : l.Yields T (b l) := h l (by simp)
    have hlines := ih fun m hm => h m (by simp [hm])
    have hfirst := assembleLines_append_of_ok hl lines
    rw [List.singleton_append, hlines] at hfirst
    rw [hfirst]
    -- the first line takes one byte, so all others move up by one
    simp [Except.map, Listing.followedBy, Listing.ofBytes, Listing.size, Emission.moved,
      List.zipIdx_succ, Function.comp_def, Nat.add_comm]

theorem assembleLines_of_first_error {before : List Line} {f : Fault}
    (hbefore : ∀ m ∈ before, ∃ b, m.Yields T b) (hl : (assembleLines T [l]).result = .error f)
    (hcause : ∀ name, f.cause ≠ .missingImmediate name) (after : List Line) :
    (assembleLines T (before ++ l :: after)).result = .error f := by
  choose! b hb using hbefore
  have hrest := assembleLines_append_of_error hl hcause after
  rw [List.singleton_append] at hrest
  rw [assembleLines_append_of_ok (assembleLines_of_yields hb), hrest]
  rfl

theorem forall_yields_or_exists_error (hT : T.immediate = []) (lines : List Line) :
    (∀ l ∈ lines, ∃ b, l.Yields T b) ∨
      ∃ before l after f, lines = before ++ l :: after ∧ (∀ m ∈ before, ∃ b, m.Yields T b) ∧
        (assembleLines T [l]).result = .error f ∧ ∀ name, f.cause ≠ .missingImmediate name := by
  induction lines with
  | nil => exact Or.inl (List.forall_mem_nil _)
  | cons l lines ih =>
    rcases l.exists_yields_or_error hT with hb | ⟨f, hf, hcause⟩
    · rcases ih with hall | ⟨before, m, after, f, rfl, hbefore, hm, hcause⟩
      · exact Or.inl (List.forall_mem_cons.2 ⟨hb, hall⟩)
      · exact Or.inr ⟨l :: before, m, after, f, rfl, List.forall_mem_cons.2 ⟨hb, hbefore⟩, hm,
          hcause⟩
    · exact Or.inr ⟨[], l, lines, f, rfl, List.forall_mem_nil _, hf, hcause⟩

theorem exists_ofBytes_of_ok (hT : T.immediate = []) {lines : List Line} {L : Listing}
    (h : (assembleLines T lines).result = .ok L) :
    ∃ b : Line → UInt8, (∀ l ∈ lines, l.Yields T (b l)) ∧ L = .ofBytes b lines := by
  rcases forall_yields_or_exists_error hT lines with
    hall | ⟨before, l, after, f, rfl, hbefore, hl, hcause⟩
  · choose! b hb using hall
    exact ⟨b, hb, Except.ok.inj (h.symm.trans (assembleLines_of_yields hb))⟩
  · cases h.symm.trans (assembleLines_of_first_error hbefore hl hcause after)

theorem exists_ok_iff_forall_alone (hT : T.immediate = []) (lines : List Line) :
    (∃ L, (assembleLines T lines).result = .ok L) ↔
      ∀ l ∈ lines, ∃ L, (assembleLines T [l]).result = .ok L := by
  simp only [← Line.exists_yields_iff hT]
  constructor
  · rintro ⟨L, hL⟩ l hl
    obtain ⟨b, hb, -⟩ := exists_ofBytes_of_ok hT hL
    exact ⟨b l, hb l hl⟩
  · intro hall
    choose! b hb using hall
    exact ⟨_, assembleLines_of_yields hb⟩

theorem exists_ok_of_perm (hT : T.immediate = []) {lines : List Line} {L : Listing}
    (hL : (assembleLines T lines).result = .ok L) (σ : Equiv.Perm (Fin lines.length)) :
    ∃ L', (assembleLines T (List.ofFn fun i => lines.get (σ i))).result = .ok L' ∧
      L'.bytes.length = L.bytes.length ∧
      ∀ i : Fin lines.length, L'.bytes[i.val]? = L.bytes[(σ i).val]? := by
  obtain ⟨b, hb, rfl⟩ := exists_ofBytes_of_ok hT hL
  have hσ : ∀ l ∈ List.ofFn fun i => lines.get (σ i), l.Yields T (b l) := by
    intro l hl
    obtain ⟨i, rfl⟩ := List.mem_ofFn.1 hl
    exact hb _ (List.get_mem _ _)
  refine ⟨_, assembleLines_of_yields hσ, ?_, fun i => ?_⟩
  · simp [Listing.bytes_ofBytes]
  · simp [Listing.bytes_ofBytes]

theorem eq_error_iff_first_alone (hT : T.immediate = []) (lines : List Line) (f : Fault) :
    (assembleLines T lines).result = .error f ↔
      ∃ before l after, lines = before ++ l :: after ∧
        (∀ m ∈ before, ∃ L, (assembleLines T [m]).result = .ok L) ∧
        (assembleLines T [l]).result = .error f := by
  simp only [← Line.exists_yields_iff hT]
  constructor
  · intro hf
    rcases forall_yields_or_exists_error hT lines with
      hall | ⟨before, l, after, f', rfl, hbefore, hl, hcause⟩
    · choose! b hb using hall
      cases hf.symm.trans (assembleLines_of_yields hb)
    · obtain rfl := Except.error.inj
        (hf.symm.trans (assembleLines_of_first_error hbefore hl hcause after))
      exact ⟨before, l, after, rfl, hbefore, hl⟩
  · rintro ⟨before, l, after, rfl, hbefore, hl⟩
    rcases l.exists_yields_or_error hT with ⟨b, hb⟩ | ⟨f', hf', hcause⟩
    · cases hb.symm.trans hl
    · obtain rfl := Except.error.inj (hl.symm.trans hf')
      exact assembleLines_of_first_error hbefore hl hcause after

/-- By a table without immediate opcodes, as the standard one is, a source assembles just when each
of its lines does by itself. Every line then gives one emission, at the address of its position and
with the byte it gives by itself, and lines in another order give their bytes in that order.
Otherwise the fault is that of the first line that fails by itself. -/
theorem assembleLines_eachLine :
    Table.standard.immediate = [] ∧
    ∀ (T : Table) (lines : List Line), T.immediate = [] →
      ((∃ L, (assembleLines T lines).result = .ok L) ↔
        ∀ l ∈ lines, ∃ L, (assembleLines T [l]).result = .ok L) ∧
      (∀ L, (assembleLines T lines).result = .ok L →
        L.emissions.length = lines.length ∧
        (∀ (i : ℕ) (l : Line), lines[i]? = some l →
          ∃ b, (assembleLines T [l]).result = .ok ⟨[⟨l, 0, [b]⟩]⟩ ∧
            L.emissions[i]? = some ⟨l, i, [b]⟩ ∧ L.bytes[i]? = some b) ∧
        ∀ σ : Equiv.Perm (Fin lines.length), ∃ L',
          (assembleLines T (List.ofFn fun i => lines.get (σ i))).result = .ok L' ∧
          L'.bytes.length = L.bytes.length ∧
          ∀ i : Fin lines.length, L'.bytes[i.val]? = L.bytes[(σ i).val]?) ∧
      ∀ f, (assembleLines T lines).result = .error f ↔
        ∃ before l after, lines = before ++ l :: after ∧
          (∀ m ∈ before, ∃ L, (assembleLines T [m]).result = .ok L) ∧
          (assembleLines T [l]).result = .error f := by
  refine ⟨rfl, fun T lines hT => ⟨exists_ok_iff_forall_alone hT lines, ?_,
    eq_error_iff_first_alone hT lines⟩⟩
  intro L hL
  refine ⟨?_, ?_, exists_ok_of_perm hT hL⟩
  · obtain ⟨b, -, rfl⟩ := exists_ofBytes_of_ok hT hL
    simp [Listing.ofBytes]
  · intro i l hl
    obtain ⟨b, hb, rfl⟩ := exists_ofBytes_of_ok hT hL
    refine ⟨b l, hb l (List.mem_of_getElem? hl), ?_, ?_⟩
    · rw [Listing.getElem?_ofBytes, hl, Option.map_some]
    · rw [Listing.bytes_ofBytes, List.getElem?_map, hl, Option.map_some]

/-- Three lines and the same in reverse; then a source whose second line and fourth line fail. -/
theorem assembleLines_eachLine_standard :
    (assembleLines .standard [⟨1, "LDA 3"⟩, ⟨2, ""⟩, ⟨3, "ff"⟩]).result =
      .ok ⟨[⟨⟨1, "LDA 3"⟩, 0, [0x13]⟩, ⟨⟨2, ""⟩, 1, [0]⟩, ⟨⟨3, "ff"⟩, 2, [0xFF]⟩]⟩ ∧
    (∃ L', (assembleLines .standard [⟨3, "ff"⟩, ⟨2, ""⟩, ⟨1, "LDA 3"⟩]).result = .ok L' ∧
      L'.bytes.length = 3 ∧ L'.bytes[0]? = some 0xFF ∧ L'.bytes[2]? = some 0x13) ∧
    (assembleLines .standard [⟨1, "HLT"⟩, ⟨2, "LDA 16"⟩, ⟨3, "HLT"⟩, ⟨4, "?"⟩]).result =
      .error ⟨2, .operandOutOfRange "LDA" "16"⟩ := by
  have hok : (assembleLines .standard [⟨1, "LDA 3"⟩, ⟨2, ""⟩, ⟨3, "ff"⟩]).result =
      .ok ⟨[⟨⟨1, "LDA 3"⟩, 0, [0x13]⟩, ⟨⟨2, ""⟩, 1, [0]⟩, ⟨⟨3, "ff"⟩, 2, [0xFF]⟩]⟩ := by cbv
  refine ⟨hok, ?_, ?_⟩
  · obtain ⟨-, -, hreorder⟩ := (assembleLines_eachLine.2 .standard
      [⟨1, "LDA 3"⟩, ⟨2, ""⟩, ⟨3, "ff"⟩] rfl).2.1 _ hok
    obtain ⟨L', hL', hlength, hbytes⟩ := hreorder Fin.revPerm
    exact ⟨L', hL', hlength, hbytes ⟨0, by decide⟩, hbytes ⟨2, by decide⟩⟩
  · refine ((assembleLines_eachLine.2 .standard _ rfl).2.2 _).2
      ⟨[⟨1, "HLT"⟩], ⟨2, "LDA 16"⟩, [⟨3, "HLT"⟩, ⟨4, "?"⟩], rfl, ?_, by cbv⟩
    intro m hm
    obtain rfl := List.mem_singleton.1 hm
    exact ⟨⟨[⟨⟨1, "HLT"⟩, 0, [0x50]⟩]⟩, by cbv⟩

end NibbleAsm
