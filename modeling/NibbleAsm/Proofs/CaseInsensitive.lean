import NibbleAsm.Proofs.LetterCase
import NibbleAsm.Proofs.Likeness

/-! Assembly does not depend on the case of letters. In the source it shows in what a fault quotes
of the source and in nothing else; in the table it shows in the names that faults give and in
nothing else. -/

namespace NibbleAsm

/-- The same line but for the case of its letters. -/
def Line.SameButCase (l l' : Line) : Prop :=
  l.number = l'.number ∧ Text.sameName l.text l'.text = true

def Entry.SameButCase (e e' : Entry) : Prop :=
  Text.sameName e.name e'.name = true ∧ e.base = e'.base

structure Table.SameButCase (T T' : Table) : Prop where
  packed : List.Forall₂ Entry.SameButCase T.packed T'.packed
  single : List.Forall₂ Entry.SameButCase T.single T'.single
  immediate : List.Forall₂ Entry.SameButCase T.immediate T'.immediate

namespace Likeness

def sourceCase : Likeness where
  line := Line.SameButCase
  name := Eq
  token t t' := Text.sameName t t' = true
  text s s' := Text.sameName s s' = true

def tableCase : Likeness where
  line := Eq
  name op op' := Text.sameName op op' = true
  token := Eq
  text := Eq

theorem sourceCase_carries (T : Table) : sourceCase.Carries T T where
  number h := h.1
  tokens h := List.forall₂_take 2 (Line.tokens_congr h.2)
  trimmed h := Line.trimmed_congr h.2
  refl _ := Text.sameName_iff.2 rfl
  isLiteralByte h := Token.isLiteralByte_congr h
  byte h := Token.byte_congr h
  denotes h v := Token.denotes_congr h v
  find? h _ op hop := ⟨op, (Table.find?_congr h T).symm.trans hop, rfl, rfl, rfl⟩

theorem sourceCase_sameMisses (T : Table) : sourceCase.SameMisses T T := by
  intro t t' h _ hnone
  rw [← Table.find?_congr h T, hnone]

theorem tableCase_opcodes {form : Form} {es es' : List Entry}
    (h : List.Forall₂ Entry.SameButCase es es') :
    List.Forall₂ tableCase.SameOpcode (es.map (Entry.opcode form))
      (es'.map (Entry.opcode form)) := by
  rw [List.forall₂_map_left_iff, List.forall₂_map_right_iff]
  exact h.imp fun e e' he => ⟨he.1, rfl, he.2⟩

theorem tableCase_find? {T T' : Table} (h : T.SameButCase T') (t : Token) :
    Option.Rel tableCase.SameOpcode (T.find? t) (T'.find? t) := by
  have hops : List.Forall₂ tableCase.SameOpcode T.opcodes T'.opcodes :=
    List.rel_append (List.rel_append (tableCase_opcodes h.packed) (tableCase_opcodes h.single))
      (tableCase_opcodes h.immediate)
  unfold Table.find?
  generalize T.opcodes = ops, T'.opcodes = ops' at hops
  induction hops with
  | nil => exact .none
  | @cons op op' ops ops' hop _ ih =>
    have hname : Text.sameName op.name t = Text.sameName op'.name t := by
      rw [Text.sameName, Text.sameName, Text.sameName_iff.1 hop.name]
    rw [List.find?_cons, List.find?_cons, hname]
    cases Text.sameName op'.name t with
    | true => exact .some hop
    | false => exact ih

theorem tableCase_carries {T T' : Table} (h : T.SameButCase T') : tableCase.Carries T T' := by
  refine .of_line_eq rfl rfl rfl ?_
  intro t op _ hop
  have hfind := tableCase_find? h t
  rw [hop] at hfind
  generalize T'.find? t = found at hfind ⊢
  cases hfind with
  | some hsame => exact ⟨_, rfl, hsame⟩

theorem tableCase_sameMisses {T T' : Table} (h : T.SameButCase T') : tableCase.SameMisses T T' := by
  intro t t' ht _ hnone
  obtain rfl : t = t' := ht
  have hfind := tableCase_find? h t
  rw [hnone] at hfind
  generalize T'.find? t = found at hfind ⊢
  cases hfind with
  | none => rfl

end Likeness

/-- Sources that differ in the case of letters assemble alike, and so do tables: of the first the
faults quote each its own spelling, of the second they give each its own names. -/
theorem assembleLines_ignores_case (T : Table) :
    (∀ lines lines', List.Forall₂ Line.SameButCase lines lines' →
      Likeness.sourceCase.SameOutcome (assembleLines T lines).result
        (assembleLines T lines').result) ∧
    ∀ T', T.SameButCase T' → ∀ lines,
      (∃ L, (assembleLines T lines).result = .ok L ∧ (assembleLines T' lines).result = .ok L) ∨
      ∃ f f', (assembleLines T lines).result = .error f ∧
        (assembleLines T' lines).result = .error f' ∧ Likeness.tableCase.SameFault f f' := by
  refine ⟨fun lines lines' hlines => ?_, fun T' hT lines => ?_⟩
  · exact assembleLines_alike (Likeness.sourceCase_carries T) hlines
      fun _ => Likeness.sourceCase_sameMisses T
  · have hlines : List.Forall₂ Likeness.tableCase.line lines lines :=
      List.forall₂_same.2 fun _ _ => rfl
    have hsame := assembleLines_alike (Likeness.tableCase_carries hT) hlines
      fun _ => Likeness.tableCase_sameMisses hT
    generalize (assembleLines T lines).result = r, (assembleLines T' lines).result = r' at hsame
    cases hsame with
    | ok hes => exact Or.inl ⟨_, rfl, by rw [Likeness.listing_eq rfl hes]⟩
    | error hf => exact Or.inr ⟨_, _, rfl, rfl, hf⟩

/-- A load in two spellings that finds its byte on the next line; a bad operand in two spellings;
and a missing operand by a table in capitals and by one that is not. -/
theorem assembleLines_ignores_case_load :
    (assembleLines .withImmediate [⟨1, "ldi"⟩, ⟨2, "0xab"⟩]).result =
      .ok ⟨[⟨⟨1, "ldi"⟩, 0, [0xC0, 0xAB]⟩]⟩ ∧
    Likeness.sourceCase.SameOutcome (.ok ⟨[⟨⟨1, "ldi"⟩, 0, [0xC0, 0xAB]⟩]⟩)
      (assembleLines .withImmediate [⟨1, "LdI"⟩, ⟨2, "0XaB"⟩]).result ∧
    (assembleLines .withImmediate [⟨1, "lda 0xg"⟩]).result =
      .error ⟨1, .badOperand "LDA" "0xg"⟩ ∧
    Likeness.sourceCase.SameOutcome (.error ⟨1, .badOperand "LDA" "0xg"⟩)
      (assembleLines .withImmediate [⟨1, "LDA 0XG"⟩]).result ∧
    ∃ f', (assembleLines ⟨[⟨"lda", 0x10⟩], [⟨"hlt", 0x50⟩], [⟨"Ldi", 0xC0⟩]⟩ [⟨1, "LDA"⟩]).result =
        .error f' ∧
      Likeness.tableCase.SameFault ⟨1, .missingOperand "LDA"⟩ f' := by
  have hload : (assembleLines .withImmediate [⟨1, "ldi"⟩, ⟨2, "0xab"⟩]).result =
      .ok ⟨[⟨⟨1, "ldi"⟩, 0, [0xC0, 0xAB]⟩]⟩ := by cbv
  have hbad : (assembleLines .withImmediate [⟨1, "lda 0xg"⟩]).result =
      .error ⟨1, .badOperand "LDA" "0xg"⟩ := by cbv
  have hmissing : (assembleLines .withImmediate [⟨1, "LDA"⟩]).result =
      .error ⟨1, .missingOperand "LDA"⟩ := by cbv
  obtain ⟨hsource, htable⟩ := assembleLines_ignores_case .withImmediate
  refine ⟨hload, ?_, hbad, ?_, ?_⟩
  · rw [← hload]
    exact hsource _ _ (.cons ⟨rfl, by decide⟩ (.cons ⟨rfl, by decide⟩ .nil))
  · rw [← hbad]
    exact hsource _ _ (.cons ⟨rfl, by decide⟩ .nil)
  · have hnames : Table.withImmediate.SameButCase
        ⟨[⟨"lda", 0x10⟩], [⟨"hlt", 0x50⟩], [⟨"Ldi", 0xC0⟩]⟩ :=
      ⟨.cons ⟨by decide, rfl⟩ .nil, .cons ⟨by decide, rfl⟩ .nil, .cons ⟨by decide, rfl⟩ .nil⟩
    have houtcome := htable _ hnames [⟨1, "LDA"⟩]
    rw [hmissing] at houtcome
    rcases houtcome with ⟨L, hL, -⟩ | ⟨f, f', hf, hf', hsame⟩
    · cases hL
    · obtain rfl := Except.error.inj hf
      exact ⟨f', hf', hsame⟩

end NibbleAsm
