import NibbleAsm.Proofs.Composition

/-! Operands on later lines, and the blank lines on the way to them. An operand may stand beside its
opcode or on a later line, and the bytes are the same. A blank line is not seen while an operand is
awaited; anywhere else it is a byte of its own, and what follows moves up by one. -/

namespace NibbleAsm

variable {T : Table} {A : List Line} {L : Listing} {l : Line} {op : Opcode}

/-- Emissions of one line number, address and bytes; the lines may be spelled differently. -/
def Emission.SamePlace (e e' : Emission) : Prop :=
  e.line.number = e'.line.number ∧ e.address = e'.address ∧ e.bytes = e'.bytes

theorem Emission.SamePlace.refl (e : Emission) : e.SamePlace e :=
  ⟨rfl, rfl, rfl⟩

namespace Listing

theorem bytes_followedBy (L M : Listing) : (L.followedBy M).bytes = L.bytes ++ M.bytes := by
  simp [bytes, followedBy, List.flatMap_map, Emission.moved]

/-- What comes after emissions of one place comes at the same addresses. -/
theorem followedBy_samePlace {e e' : Emission} (h : e.SamePlace e') (es : List Emission)
    (M : Listing) :
    List.Forall₂ Emission.SamePlace ((⟨es ++ [e]⟩ : Listing).followedBy M).emissions
      ((⟨es ++ [e']⟩ : Listing).followedBy M).emissions := by
  have hrefl : ∀ fs : List Emission, List.Forall₂ Emission.SamePlace fs fs :=
    fun fs => List.forall₂_same.2 fun f _ => .refl f
  have hsize : (⟨es ++ [e]⟩ : Listing).size = (⟨es ++ [e']⟩ : Listing).size := by
    simp [size, h.2.2]
  rw [followedBy, followedBy, hsize]
  apply List.rel_append
  · exact List.rel_append (hrefl es) (.cons h .nil)
  · exact hrefl _

end Listing

theorem assembleLines_append_beside {t : Token} {args : List Token}
    (hA : (assembleLines T A).result = .ok L) (hl : l.Calls T op (t :: args))
    (hform : op.form = .immediate) (C : List Line) :
    (assembleLines T (A ++ l :: C)).result =
      match t.byte with
      | .error _ => .error ⟨l.number, .badOperand op.name t⟩
      | .ok x =>
        (assembleLines T C).result.map
          (Listing.followedBy ⟨L.emissions ++ [⟨l, L.size, [op.base, x]⟩]⟩) := by
  obtain ⟨p, rfl, rfl⟩ := exists_program_of_ok hA
  rcases t.byte_ok_or_malformed with ⟨x, ht⟩ | ht
  · rw [ht]
    exact assembleLines_concat_append p ⟨l, [], [op.base, x], .immediate hl hform ht⟩ C
  · rw [ht]
    exact assembleLines_faulty p (.badByte hl hform ht)

/-- An immediate opcode alone is followed by blank lines and a line that starts with `t`, or it has
`t` beside it: both sources assemble to emissions of the same places or fail with one fault, but if
`t` is no byte, then each fails at the line on which `t` stands. -/
theorem assembleLines_operand_ahead {m t : Token} {blanks : List Line} {q : Line}
    (hA : (assembleLines T A).result = .ok L) (hm : m.IsWord) (hliteral : m.isLiteralByte = false)
    (hop : T.find? m = some op) (hform : op.form = .immediate)
    (hblanks : ∀ z ∈ blanks, z.isBlank = true) (hq : q.firstToken? = some t) (C : List Line)
    (k : ℕ) :
    (∀ x, t.byte = .ok x →
      (∃ M M', (assembleLines T (A ++ [⟨k, m⟩] ++ blanks ++ [q] ++ C)).result = .ok M ∧
        (assembleLines T (A ++ [⟨k, m ++ " " ++ t⟩] ++ C)).result = .ok M' ∧
        List.Forall₂ Emission.SamePlace M.emissions M'.emissions) ∨
      ∃ f, (assembleLines T (A ++ [⟨k, m⟩] ++ blanks ++ [q] ++ C)).result = .error f ∧
        (assembleLines T (A ++ [⟨k, m ++ " " ++ t⟩] ++ C)).result = .error f) ∧
    (t.byte = .error .malformed →
      (assembleLines T (A ++ [⟨k, m⟩] ++ blanks ++ [q] ++ C)).result =
        .error ⟨q.number, .badOperand op.name t⟩ ∧
      (assembleLines T (A ++ [⟨k, m ++ " " ++ t⟩] ++ C)).result =
        .error ⟨k, .badOperand op.name t⟩) := by
  obtain ⟨args, hargs⟩ : ∃ args, q.tokens = t :: args := List.head?_eq_some_iff.1 hq
  have ht : t.IsWord := Line.isWord_of_mem_tokens (hargs ▸ List.mem_cons_self)
  have hmatch : T.FirstMatch m op := Table.find?_eq_some_iff.1 hop
  have hawait : Awaiting T (A ++ [⟨k, m⟩]) L ⟨k, m⟩ op :=
    ⟨⟨A, [], rfl, hA, List.forall_mem_nil _⟩, ⟨m, Line.tokens_word k hm, hliteral, hmatch⟩, hform⟩
  have hahead := hawait.append_line (C := C) hblanks hargs
  have hbeside := assembleLines_append_beside (l := ⟨k, m ++ " " ++ t⟩) hA
    ⟨m, Line.tokens_pair k hm ht, hliteral, hmatch⟩ hform C
  -- either way the rest of the source comes after the same bytes, if there are any
  simp only [List.append_assoc, List.cons_append, List.nil_append] at hahead hbeside ⊢
  constructor
  · intro x hbyte
    rw [hbyte] at hahead hbeside
    rw [hahead, hbeside]
    cases (assembleLines T C).result with
    | error f => exact Or.inr ⟨f, rfl, rfl⟩
    | ok M =>
      refine Or.inl ⟨_, _, rfl, rfl, ?_⟩
      apply Listing.followedBy_samePlace
      exact ⟨rfl, rfl, rfl⟩
  · intro hbyte
    rw [hbyte] at hahead hbeside
    exact ⟨hahead, hbeside⟩

/-- The operand of a load is found past a blank line, or stands beside it; the halt that follows is
assembled in both cases. A halt in place of the operand is a fault of its own line. -/
theorem assembleLines_operand_ahead_load :
    (∃ M M', (assembleLines .withImmediate
        ([⟨1, "HLT"⟩] ++ [⟨2, "ldi"⟩] ++ [⟨3, ""⟩] ++ [⟨4, "9 x"⟩] ++ [⟨5, "HLT"⟩])).result =
        .ok M ∧
      (assembleLines .withImmediate
        ([⟨1, "HLT"⟩] ++ [⟨2, "ldi" ++ " " ++ "9"⟩] ++ [⟨5, "HLT"⟩])).result = .ok M' ∧
      List.Forall₂ Emission.SamePlace M.emissions M'.emissions) ∧
    (assembleLines .withImmediate
        ([⟨1, "HLT"⟩] ++ [⟨2, "ldi"⟩] ++ [⟨3, ""⟩] ++ [⟨4, "HLT"⟩] ++ [])).result =
      .error ⟨4, .badOperand "LDI" "HLT"⟩ ∧
    (assembleLines .withImmediate ([⟨1, "HLT"⟩] ++ [⟨2, "ldi" ++ " " ++ "HLT"⟩] ++ [])).result =
      .error ⟨2, .badOperand "LDI" "HLT"⟩ := by
  have hfirst : (assembleLines .withImmediate [⟨1, "HLT"⟩]).result =
      .ok ⟨[⟨⟨1, "HLT"⟩, 0, [0x50]⟩]⟩ := by cbv
  have hword : Token.IsWord "ldi" :=
    Line.isWord_of_mem_tokens (l := ⟨2, "ldi"⟩) (List.mem_of_head? (by cbv))
  have hop : Table.withImmediate.find? "ldi" = some ⟨"LDI", .immediate, 0xC0⟩ := by cbv
  have hblanks : ∀ z ∈ [(⟨3, ""⟩ : Line)], z.isBlank = true := List.forall_mem_singleton.2 (by cbv)
  have hnine := assembleLines_operand_ahead (t := "9") (q := ⟨4, "9 x"⟩) hfirst hword (by cbv) hop
    rfl hblanks (by cbv) [⟨5, "HLT"⟩] 2
  have hhalt := assembleLines_operand_ahead (t := "HLT") (q := ⟨4, "HLT"⟩) hfirst hword (by cbv) hop
    rfl hblanks (by cbv) [] 2
  refine ⟨?_, hhalt.2 (by cbv)⟩
  rcases hnine.1 9 (by cbv) with hok | ⟨f, hf, -⟩
  · exact hok
  · have hrun : (assembleLines .withImmediate ([⟨1, "HLT"⟩] ++ [⟨2, "ldi"⟩] ++ [⟨3, ""⟩] ++
        [⟨4, "9 x"⟩] ++ [⟨5, "HLT"⟩])).result.toOption.isSome = true := by cbv
    rw [hf] at hrun
    cases hrun

namespace Awaiting

theorem append_cons_blank (h : Awaiting T A L l op) {z : Line} (hz : z.isBlank = true)
    (B : List Line) :
    (assembleLines T (A ++ z :: B)).result = (assembleLines T (A ++ B)).result := by
  rcases Feed.blank_or_exists_line B with hB | ⟨blanks, q, C, t, args, rfl, hblanks, hq⟩
  · rw [h.append_blank hB, h.append_blank (List.forall_mem_cons.2 ⟨hz, hB⟩)]
  · rw [h.append_line hblanks hq, ← List.cons_append,
      h.append_line (List.forall_mem_cons.2 ⟨hz, hblanks⟩) hq]

end Awaiting

theorem assembleLines_blank {z : Line} (hz : z.isBlank = true) :
    (assembleLines T [z]).result = .ok ⟨[⟨z, 0, [0]⟩]⟩ :=
  assembleLines_program [⟨z, [], [0], .pad hz⟩]

/-- After lines that assemble, a blank line is a byte of zero and moves what follows. -/
theorem assembleLines_append_cons_blank (hA : (assembleLines T A).result = .ok L) {z : Line}
    (hz : z.isBlank = true) (B : List Line) :
    (assembleLines T (A ++ z :: B)).result =
      (assembleLines T B).result.map fun M => ⟨L.emissions ++ ⟨z, L.size, [0]⟩ ::
        (M.emissions.map (Emission.moved L.size)).map (Emission.moved 1)⟩ := by
  have hz' := assembleLines_append_of_ok (assembleLines_blank (T := T) hz) B
  rw [List.singleton_append] at hz'
  rw [assembleLines_append_of_ok hA, hz']
  cases (assembleLines T B).result with
  | error f => rfl
  | ok M =>
    simp only [Except.map, Listing.followedBy, List.map_append, List.map_map]
    simp [Listing.size, Emission.moved, Function.comp_def, Nat.add_left_comm]

/-- A blank line put into a source that assembles: where the lines before it assemble, one byte of
zero is put into the output and its emission into the listing, and what follows moves up by one;
where an operand is awaited, the listing stays as it is. There is no third case. -/
theorem assembleLines_insert_blank {B : List Line} {z : Line}
    (h : (assembleLines T (A ++ B)).result = .ok L) (hz : z.isBlank = true) :
    (∃ M later L', (assembleLines T A).result = .ok M ∧ L.emissions = M.emissions ++ later ∧
      (assembleLines T (A ++ [z] ++ B)).result = .ok L' ∧
      L'.emissions = M.emissions ++ ⟨z, M.size, [0]⟩ :: later.map (Emission.moved 1) ∧
      M.size ≤ L.bytes.length ∧
      L'.bytes = L.bytes.take M.size ++ 0 :: L.bytes.drop M.size) ∨
    ∃ n name, (assembleLines T A).result = .error ⟨n, .missingImmediate name⟩ ∧
      (assembleLines T (A ++ [z] ++ B)).result = .ok L := by
  rw [List.append_assoc, List.singleton_append]
  cases hA : (assembleLines T A).result with
  | ok M =>
    left
    have hAB := assembleLines_append_of_ok hA B
    rw [h] at hAB
    rw [assembleLines_append_cons_blank hA hz]
    cases hB : (assembleLines T B).result with
    | error f => simp [hB, Except.map] at hAB
    | ok N =>
      obtain rfl : L = M.followedBy N := by simpa [hB, Except.map] using hAB
      refine ⟨M, N.emissions.map (Emission.moved M.size), _, rfl, rfl, rfl, rfl, ?_, ?_⟩
      · rw [Listing.bytes_followedBy, List.length_append, M.length_bytes]
        omega
      · rw [Listing.bytes_followedBy, ← M.length_bytes, List.take_left, List.drop_left]
        simp [Listing.bytes, List.flatMap_map, Emission.moved]
  | error f =>
    right
    -- any other fault of the first part would be one of the whole
    have hcause : ∃ name, f.cause = .missingImmediate name := by
      by_contra hother
      rw [assembleLines_append_of_error hA (not_exists.1 hother)] at h
      cases h
    obtain ⟨n, cause⟩ := f
    obtain ⟨name, rfl⟩ : ∃ name, cause = .missingImmediate name := hcause
    obtain ⟨M, l, op, hawait, -⟩ := exists_awaiting hA
    exact ⟨n, name, rfl, (hawait.append_cons_blank hz B).trans h⟩

/-- Between a load and a halt a blank line is a byte, between a load and its operand it is not. -/
theorem assembleLines_insert_blank_load :
    (assembleLines .withImmediate ([⟨1, "LDI 9"⟩] ++ [⟨2, "HLT"⟩])).result =
      .ok ⟨[⟨⟨1, "LDI 9"⟩, 0, [0xC0, 9]⟩, ⟨⟨2, "HLT"⟩, 2, [0x50]⟩]⟩ ∧
    (∃ L', (assembleLines .withImmediate ([⟨1, "LDI 9"⟩] ++ [⟨7, "\t"⟩] ++ [⟨2, "HLT"⟩])).result =
      .ok L' ∧ L'.bytes = [0xC0, 9, 0, 0x50]) ∧
    (assembleLines .withImmediate ([⟨1, "LDI"⟩] ++ [⟨2, "9"⟩])).result =
      .ok ⟨[⟨⟨1, "LDI"⟩, 0, [0xC0, 9]⟩]⟩ ∧
    (assembleLines .withImmediate ([⟨1, "LDI"⟩] ++ [⟨7, "\t"⟩] ++ [⟨2, "9"⟩])).result =
      .ok ⟨[⟨⟨1, "LDI"⟩, 0, [0xC0, 9]⟩]⟩ := by
  have hblank : (⟨7, "\t"⟩ : Line).isBlank = true := by cbv
  have hload : (assembleLines .withImmediate [⟨1, "LDI 9"⟩]).result =
      .ok ⟨[⟨⟨1, "LDI 9"⟩, 0, [0xC0, 9]⟩]⟩ := by cbv
  have halone : (assembleLines .withImmediate [⟨1, "LDI"⟩]).result =
      .error ⟨1, .missingImmediate "LDI"⟩ := by cbv
  have hpair : (assembleLines .withImmediate ([⟨1, "LDI 9"⟩] ++ [⟨2, "HLT"⟩])).result =
      .ok ⟨[⟨⟨1, "LDI 9"⟩, 0, [0xC0, 9]⟩, ⟨⟨2, "HLT"⟩, 2, [0x50]⟩]⟩ := by cbv
  have hahead : (assembleLines .withImmediate ([⟨1, "LDI"⟩] ++ [⟨2, "9"⟩])).result =
      .ok ⟨[⟨⟨1, "LDI"⟩, 0, [0xC0, 9]⟩]⟩ := by cbv
  refine ⟨hpair, ?_, hahead, ?_⟩
  · rcases assembleLines_insert_blank hpair hblank with
      ⟨M, later, L', hM, -, hL', -, -, hbytes⟩ | ⟨n, name, hmissing, -⟩
    · obtain rfl := Except.ok.inj (hload.symm.trans hM)
      exact ⟨L', hL', hbytes.trans (by cbv)⟩
    · cases hload.symm.trans hmissing
  · rcases assembleLines_insert_blank hahead hblank with ⟨M, later, L', hM, -⟩ | ⟨n, name, -, hsame⟩
    · cases halone.symm.trans hM
    · exact hsame

end NibbleAsm
