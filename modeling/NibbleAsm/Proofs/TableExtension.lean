import NibbleAsm.Proofs.Likeness

/-! Tables that grow. Entries added at the end of each form change nothing for a source that the
table knew, as long as no packed or single one takes a name that was there; immediate entries are
looked at last and may have any name. -/

namespace NibbleAsm

namespace Table

def extend (T E : Table) : Table :=
  ⟨T.packed ++ E.packed, T.single ++ E.single, T.immediate ++ E.immediate⟩

/-- No packed or single entry of `E` has a name of `T`. -/
def Fresh (T E : Table) : Prop :=
  ∀ e ∈ E.packed ++ E.single, ∀ name ∈ T.mnemonics, Text.sameName e.name name = false

theorem find?_extend {T E : Table} (hE : T.Fresh E) {t : Token} {op : Opcode}
    (hop : T.find? t = some op) : (T.extend E).find? t = some op := by
  obtain ⟨before, after, hops, hname, -⟩ := find?_eq_some_iff.1 hop
  have hmem : op.name ∈ T.mnemonics := List.mem_map_of_mem (by simp [hops])
  have hmiss : ∀ (form : Form) (es : List Entry), (∀ e ∈ es, e ∈ E.packed ++ E.single) →
      (es.map (Entry.opcode form)).find? (fun op => Text.sameName op.name t) = none := by
    intro form es hes
    rw [List.find?_eq_none]
    intro other hother hsame
    obtain ⟨e, he, rfl⟩ := List.mem_map.1 hother
    -- an added entry called `t` would have the name of `op`
    have hfresh := hE e (hes e he) op.name hmem
    rw [Text.sameName, Text.sameName_iff.1 hname, ← Text.sameName] at hfresh
    exact Bool.noConfusion (hsame.symm.trans hfresh)
  have hpacked := hmiss .packed E.packed fun e he => List.mem_append_left _ he
  have hsingle := hmiss .single E.single fun e he => List.mem_append_right _ he
  simp only [find?, opcodes, List.find?_append] at hop
  simp only [find?, opcodes, extend, List.map_append, List.find?_append, hpacked, hsingle,
    Option.or_none]
  rw [← Option.or_assoc, hop, Option.some_or]

end Table

namespace Likeness

theorem equal_carries_extend {T E : Table} (hE : T.Fresh E) : equal.Carries T (T.extend E) := by
  refine .of_line_eq rfl rfl rfl ?_
  intro t op _ hop
  exact ⟨op, Table.find?_extend hE hop, rfl, rfl, rfl⟩

end Likeness

/-- A larger table gives the same listing or the same fault, unless the smaller one failed at a line
that it did not know. -/
theorem assembleLines_extend {T E : Table} (hE : T.Fresh E) {lines : List Line}
    (hknown : ∀ n text, (assembleLines T lines).result ≠ .error ⟨n, .unrecognized text⟩) :
    (assembleLines (T.extend E) lines).result = (assembleLines T lines).result := by
  have hlines : List.Forall₂ Likeness.equal.line lines lines := List.forall₂_same.2 fun _ _ => rfl
  have hsame := assembleLines_alike (Likeness.equal_carries_extend hE) hlines
    fun ⟨n, text, hunknown⟩ => absurd hunknown (hknown n text)
  exact hsame.eq.symm

/-- A table with more names, one of which is an immediate `LDA`. -/
theorem assembleLines_extend_load :
    (assembleLines (Table.extend .withImmediate ⟨[⟨"ADD", 0xA0⟩], [⟨"NOP", 0⟩], [⟨"LDA", 0xD0⟩]⟩)
        [⟨1, "lda 3"⟩, ⟨2, "ldi"⟩, ⟨3, "9"⟩]).result =
      .ok ⟨[⟨⟨1, "lda 3"⟩, 0, [0x13]⟩, ⟨⟨2, "ldi"⟩, 1, [0xC0, 9]⟩]⟩ ∧
    (assembleLines (Table.extend .withImmediate ⟨[⟨"ADD", 0xA0⟩], [⟨"NOP", 0⟩], [⟨"LDA", 0xD0⟩]⟩)
        [⟨1, "lda"⟩, ⟨2, "9"⟩]).result = .error ⟨1, .missingOperand "LDA"⟩ := by
  have hfresh : Table.withImmediate.Fresh ⟨[⟨"ADD", 0xA0⟩], [⟨"NOP", 0⟩], [⟨"LDA", 0xD0⟩]⟩ := by
    unfold Table.Fresh
    decide
  have hload : (assembleLines .withImmediate [⟨1, "lda 3"⟩, ⟨2, "ldi"⟩, ⟨3, "9"⟩]).result =
      .ok ⟨[⟨⟨1, "lda 3"⟩, 0, [0x13]⟩, ⟨⟨2, "ldi"⟩, 1, [0xC0, 9]⟩]⟩ := by cbv
  have hmissing : (assembleLines .withImmediate [⟨1, "lda"⟩, ⟨2, "9"⟩]).result =
      .error ⟨1, .missingOperand "LDA"⟩ := by cbv
  constructor
  · rw [assembleLines_extend hfresh (by simp [hload]), hload]
  · rw [assembleLines_extend hfresh (by simp [hmissing]), hmissing]

end NibbleAsm
