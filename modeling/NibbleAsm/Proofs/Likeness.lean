import NibbleAsm.Proofs.Grammar

/-! Two assemblies side by side. A `Likeness` says what may stand for what in them. If it respects
what tokens stand for and what the tables find (`Carries`), then each instruction of one source is
one of the other, each trouble is the same trouble, and the outcomes are alike
(`assembleLines_alike`). -/

namespace NibbleAsm

/-- What corresponds in two assemblies: lines, names of opcodes, tokens, and the texts that show a
line which is not recognized. -/
structure Likeness where
  line : Line → Line → Prop
  name : String → String → Prop
  token : Token → Token → Prop
  text : String → String → Prop

/-- A token that can name an opcode: a word that is no literal byte. -/
def Token.CanName (t : Token) : Prop :=
  t.IsWord ∧ t.isLiteralByte = false

theorem Line.canName_of_tokens {l : Line} {t : Token} {args : List Token}
    (ht : l.tokens = t :: args) (hliteral : t.isLiteralByte = false) : t.CanName :=
  ⟨isWord_of_mem_tokens (ht ▸ List.mem_cons_self), hliteral⟩

namespace Likeness

inductive SameCause (R : Likeness) : Cause → Cause → Prop
  | missingOperand {op op' : String} (hop : R.name op op') :
      R.SameCause (.missingOperand op) (.missingOperand op')
  | badOperand {op op' : String} {t t' : Token} (hop : R.name op op') (ht : R.token t t') :
      R.SameCause (.badOperand op t) (.badOperand op' t')
  | operandOutOfRange {op op' : String} {t t' : Token} (hop : R.name op op') (ht : R.token t t') :
      R.SameCause (.operandOutOfRange op t) (.operandOutOfRange op' t')
  | missingImmediate {op op' : String} (hop : R.name op op') :
      R.SameCause (.missingImmediate op) (.missingImmediate op')
  | unrecognized {s s' : String} (hs : R.text s s') :
      R.SameCause (.unrecognized s) (.unrecognized s')

structure SameFault (R : Likeness) (f f' : Fault) : Prop where
  line : f.line = f'.line
  cause : R.SameCause f.cause f'.cause

structure SameEmission (R : Likeness) (e e' : Emission) : Prop where
  line : R.line e.line e'.line
  address : e.address = e'.address
  bytes : e.bytes = e'.bytes

/-- Both assemblies succeed, or both fail, and what they give corresponds. -/
inductive SameOutcome (R : Likeness) : Except Fault Listing → Except Fault Listing → Prop
  | ok {L L' : Listing} (h : List.Forall₂ R.SameEmission L.emissions L'.emissions) :
      R.SameOutcome (.ok L) (.ok L')
  | error {f f' : Fault} (h : R.SameFault f f') : R.SameOutcome (.error f) (.error f')

structure SameOpcode (R : Likeness) (op op' : Opcode) : Prop where
  name : R.name op.name op'.name
  form : op.form = op'.form
  base : op.base = op'.base

/-- The likeness respects all that an instruction depends on, where the first source is read by
table `T` and the second by `T'`. What `T` knows, `T'` knows too; the converse is left open. -/
structure Carries (R : Likeness) (T T' : Table) : Prop where
  number {l l' : Line} (h : R.line l l') : l.number = l'.number
  tokens {l l' : Line} (h : R.line l l') :
    List.Forall₂ R.token (l.tokens.take 2) (l'.tokens.take 2)
  trimmed {l l' : Line} (h : R.line l l') : R.text l.trimmed l'.trimmed
  refl (t : Token) : R.token t t
  isLiteralByte {t t' : Token} (h : R.token t t') : t.isLiteralByte = t'.isLiteralByte
  byte {t t' : Token} (h : R.token t t') : t.byte = t'.byte
  denotes {t t' : Token} (h : R.token t t') (v : ℕ) : t.Denotes v ↔ t'.Denotes v
  find? {t t' : Token} (h : R.token t t') (hname : t.CanName) {op : Opcode}
    (hop : T.find? t = some op) : ∃ op', T'.find? t' = some op' ∧ R.SameOpcode op op'

/-- What `T` does not know, `T'` does not know either. -/
def SameMisses (R : Likeness) (T T' : Table) : Prop :=
  ∀ ⦃t t' : Token⦄, R.token t t' → t.CanName → T.find? t = none → T'.find? t' = none

/-- Where tokens have to be equal, what they stand for needs no argument. -/
theorem Carries.of_token_eq {R : Likeness} {T T' : Table} (htoken : R.token = Eq)
    (hnumber : ∀ {l l' : Line}, R.line l l' → l.number = l'.number)
    (htokens : ∀ {l l' : Line}, R.line l l' → l.tokens.take 2 = l'.tokens.take 2)
    (htrimmed : ∀ {l l' : Line}, R.line l l' → R.text l.trimmed l'.trimmed)
    (hfind : ∀ {t : Token} {op : Opcode}, t.CanName → T.find? t = some op →
      ∃ op', T'.find? t = some op' ∧ R.SameOpcode op op') : R.Carries T T' := by
  have heq : ∀ {t t' : Token}, R.token t t' → t = t' := fun h => by rwa [htoken] at h
  exact {
    number := hnumber
    tokens := fun hl => by rw [htokens hl, htoken, List.forall₂_eq_eq_eq]
    trimmed := htrimmed
    refl := fun t => by rw [htoken]
    isLiteralByte := fun ht => by rw [heq ht]
    byte := fun ht => by rw [heq ht]
    denotes := fun ht v => by rw [heq ht]
    find? := fun ht hname _ hop => heq ht ▸ hfind hname hop }

/-- One source by two tables: the tables are all there is to compare. -/
theorem Carries.of_line_eq {R : Likeness} {T T' : Table} (hline : R.line = Eq)
    (htoken : R.token = Eq) (htext : R.text = Eq)
    (hfind : ∀ {t : Token} {op : Opcode}, t.CanName → T.find? t = some op →
      ∃ op', T'.find? t = some op' ∧ R.SameOpcode op op') : R.Carries T T' := by
  have heq : ∀ {l l' : Line}, R.line l l' → l = l' := fun h => by rwa [hline] at h
  exact .of_token_eq htoken (fun hl => by rw [heq hl]) (fun hl => by rw [heq hl])
    (fun hl => by rw [heq hl, htext]) hfind

/-- With equal lines, listings that are alike are equal. -/
theorem listing_eq {R : Likeness} (hline : R.line = Eq) {L L' : Listing}
    (h : List.Forall₂ R.SameEmission L.emissions L'.emissions) : L = L' := by
  obtain ⟨es⟩ := L
  obtain ⟨es'⟩ := L'
  have hes : List.Forall₂ Eq es es' := h.imp fun e e' he => by
    obtain ⟨l, address, bytes⟩ := e
    obtain ⟨hl, rfl, rfl⟩ := he
    rw [hline] at hl
    cases hl
    rfl
  rw [List.forall₂_eq_eq_eq] at hes
  rw [hes]

def equal : Likeness where
  line := Eq
  name := Eq
  token := Eq
  text := Eq

/-- Where all that a fault holds has to be equal, faults that are alike are equal. -/
theorem SameFault.eq {R : Likeness} (hname : R.name = Eq) (htoken : R.token = Eq)
    (htext : R.text = Eq) {f f' : Fault} (h : R.SameFault f f') : f = f' := by
  obtain ⟨line, cause⟩ := f
  obtain ⟨line', cause'⟩ := f'
  obtain ⟨rfl, hcause⟩ := h
  cases hcause with
  | missingOperand hop => rw [hname] at hop; cases hop; rfl
  | badOperand hop ht => rw [hname] at hop; rw [htoken] at ht; cases hop; cases ht; rfl
  | operandOutOfRange hop ht => rw [hname] at hop; rw [htoken] at ht; cases hop; cases ht; rfl
  | missingImmediate hop => rw [hname] at hop; cases hop; rfl
  | unrecognized hs => rw [htext] at hs; cases hs; rfl

theorem SameOutcome.eq {r r' : Except Fault Listing} (h : equal.SameOutcome r r') : r = r' := by
  cases h with
  | ok hes => rw [listing_eq rfl hes]
  | error hf => rw [hf.eq rfl rfl rfl]

theorem SameOutcome.bytes_eq {R : Likeness} {r r' : Except Fault Listing}
    (h : R.SameOutcome r r') :
    r.toOption.map Listing.bytes = r'.toOption.map Listing.bytes := by
  cases h with
  | error => rfl
  | @ok L L' h =>
    have hbytes : L.bytes = L'.bytes := by
      unfold Listing.bytes
      generalize L.emissions = es, L'.emissions = es' at h
      induction h with
      | nil => rfl
      | cons he _ ih => rw [List.flatMap_cons, List.flatMap_cons, he.bytes, ih]
    simp only [Except.toOption, Option.map_some, hbytes]

end Likeness

theorem exists_append_of_forall₂ {α β : Type} {R : α → β → Prop} {xs ys : List α} {zs : List β}
    (h : List.Forall₂ R (xs ++ ys) zs) :
    ∃ xs' ys', zs = xs' ++ ys' ∧ List.Forall₂ R xs xs' ∧ List.Forall₂ R ys ys' := by
  induction xs generalizing zs with
  | nil => exact ⟨[], zs, rfl, .nil, h⟩
  | cons x xs ih =>
    obtain ⟨z, zs, hx, hzs, rfl⟩ := List.forall₂_cons_left_iff.1 h
    obtain ⟨xs', ys', rfl, hxs, hys⟩ := ih hzs
    exact ⟨z :: xs', ys', rfl, .cons hx hxs, hys⟩

namespace Likeness.Carries

variable {R : Likeness} {T T' : Table} {l l' : Line} (h : R.Carries T T')

include h

theorem tokens_nil (hl : R.line l l') (ht : l.tokens = []) : l'.tokens = [] := by
  have := h.tokens hl
  simpa [ht] using this

theorem tokens_cons (hl : R.line l l') {t : Token} {args : List Token} (ht : l.tokens = t :: args) :
    ∃ t' args', l'.tokens = t' :: args' ∧ R.token t t' ∧
      List.Forall₂ R.token (args.take 1) (args'.take 1) := by
  have htokens := h.tokens hl
  rw [ht, List.take_succ_cons] at htokens
  cases hl' : l'.tokens with
  | nil =>
    rw [hl'] at htokens
    cases htokens
  | cons t' args' =>
    rw [hl', List.take_succ_cons] at htokens
    obtain ⟨htoken, hargs⟩ := List.forall₂_cons.1 htokens
    exact ⟨t', args', rfl, htoken, hargs⟩

theorem isBlank (hl : R.line l l') (hblank : l.isBlank = true) : l'.isBlank = true :=
  Line.isBlank_iff.2 (h.tokens_nil hl (Line.isBlank_iff.1 hblank))

theorem blanks {zs zs' : List Line} (hzs : List.Forall₂ R.line zs zs')
    (hblank : ∀ z ∈ zs, z.isBlank = true) : ∀ z ∈ zs', z.isBlank = true := by
  induction hzs with
  | nil => exact List.forall_mem_nil _
  | cons hz _ ih =>
    obtain ⟨hz', hzs'⟩ := List.forall_mem_cons.1 hblank
    exact List.forall_mem_cons.2 ⟨h.isBlank hz hz', ih hzs'⟩

theorem calls (hl : R.line l l') {op : Opcode} {args : List Token} (hcalls : l.Calls T op args) :
    ∃ op' args', l'.Calls T' op' args' ∧ R.SameOpcode op op' ∧
      List.Forall₂ R.token (args.take 1) (args'.take 1) := by
  obtain ⟨t, ht, hliteral, hop⟩ := hcalls
  obtain ⟨t', args', ht', htoken, hargs⟩ := h.tokens_cons hl ht
  have hname : t.CanName := Line.canName_of_tokens ht hliteral
  obtain ⟨op', hop', hsame⟩ := h.find? htoken hname (Table.find?_eq_some_iff.2 hop)
  rw [h.isLiteralByte htoken] at hliteral
  exact ⟨op', args', ⟨t', ht', hliteral, Table.find?_eq_some_iff.1 hop'⟩, hsame, hargs⟩

theorem calls_nil (hl : R.line l l') {op : Opcode} (hcalls : l.Calls T op []) :
    ∃ op', l'.Calls T' op' [] ∧ R.SameOpcode op op' := by
  obtain ⟨op', args', hcalls', hop, hargs⟩ := h.calls hl hcalls
  cases args' with
  | nil => exact ⟨op', hcalls', hop⟩
  | cons u' us' => cases hargs

theorem calls_cons (hl : R.line l l') {op : Opcode} {u : Token} {us : List Token}
    (hcalls : l.Calls T op (u :: us)) :
    ∃ op' u' us', l'.Calls T' op' (u' :: us') ∧ R.SameOpcode op op' ∧ R.token u u' := by
  obtain ⟨op', args', hcalls', hop, hargs⟩ := h.calls hl hcalls
  cases args' with
  | nil => cases hargs
  | cons u' us' => exact ⟨op', u', us', hcalls', hop, (List.forall₂_cons.1 hargs).1⟩

theorem literalByte {t t' : Token} (ht : R.token t t') (hliteral : t.isLiteralByte = true) :
    UInt8.ofNat t'.literalValue = UInt8.ofNat t.literalValue := by
  have hbyte := h.byte ht
  rw [Token.byte_of_isLiteralByte hliteral,
    Token.byte_of_isLiteralByte ((h.isLiteralByte ht).symm.trans hliteral)] at hbyte
  exact (Except.ok.inj hbyte).symm

/-- An instruction carries over, with its bytes, to the lines that correspond to its own. -/
theorem shape {more more' : List Line} {bytes : List UInt8} (hl : R.line l l')
    (hmore : List.Forall₂ R.line more more') (hshape : Shape T l more bytes) :
    Shape T' l' more' bytes := by
  cases hshape with
  | pad hblank =>
    cases hmore
    exact .pad (h.isBlank hl hblank)
  | literal ht hliteral =>
    cases hmore
    obtain ⟨t', args', ht', htoken, -⟩ := h.tokens_cons hl ht
    rw [← h.literalByte htoken hliteral]
    exact .literal ht' ((h.isLiteralByte htoken).symm.trans hliteral)
  | packed hcalls hform hu hv =>
    cases hmore
    obtain ⟨op', u', us', hcalls', hop, htoken⟩ := h.calls_cons hl hcalls
    rw [hop.base]
    exact .packed hcalls' (hop.form ▸ hform) ((h.denotes htoken _).1 hu) hv
  | single hcalls hform =>
    cases hmore
    obtain ⟨op', args', hcalls', hop, -⟩ := h.calls hl hcalls
    rw [hop.base]
    exact .single hcalls' (hop.form ▸ hform)
  | immediate hcalls hform hu =>
    cases hmore
    obtain ⟨op', u', us', hcalls', hop, htoken⟩ := h.calls_cons hl hcalls
    rw [hop.base]
    exact .immediate hcalls' (hop.form ▸ hform) ((h.byte htoken).symm.trans hu)
  | lookahead hcalls hform hblanks hq hu =>
    obtain ⟨blanks', qs', rfl, hblanks', hqs⟩ := exists_append_of_forall₂ hmore
    obtain ⟨q', tail', hqq', htail, rfl⟩ := List.forall₂_cons_left_iff.1 hqs
    cases htail
    obtain ⟨op', hcalls', hop⟩ := h.calls_nil hl hcalls
    obtain ⟨u', us', hq', htoken, -⟩ := h.tokens_cons hqq' hq
    rw [hop.base]
    exact .lookahead hcalls' (hop.form ▸ hform) (h.blanks hblanks' hblanks) hq'
      ((h.byte htoken).symm.trans hu)

/-- A trouble carries over and gives a fault that corresponds. A line that is not recognized stays
so only if the second table misses what the first misses. -/
theorem faulty {rest rest' : List Line} {k : Trouble} {f : Fault} (hl : R.line l l')
    (hrest : List.Forall₂ R.line rest rest') (hmisses : k = .unmatched → R.SameMisses T T')
    (hf : Faulty T l rest k f) : ∃ f', Faulty T' l' rest' k f' ∧ R.SameFault f f' := by
  have hnumber := h.number hl
  cases hf with
  | unmatched ht hliteral hT =>
    obtain ⟨t', args', ht', htoken, -⟩ := h.tokens_cons hl ht
    have hname : Token.CanName _ := Line.canName_of_tokens ht hliteral
    have hT' := hmisses rfl htoken hname (Table.find?_eq_none_iff.2 hT)
    rw [h.isLiteralByte htoken] at hliteral
    exact ⟨_, .unmatched ht' hliteral (Table.find?_eq_none_iff.1 hT'), hnumber,
      .unrecognized (h.trimmed hl)⟩
  | noOperand hcalls hform =>
    obtain ⟨op', hcalls', hop⟩ := h.calls_nil hl hcalls
    exact ⟨_, .noOperand hcalls' (hop.form ▸ hform), hnumber, .missingOperand hop.name⟩
  | badOperand hcalls hform hu =>
    obtain ⟨op', u', us', hcalls', hop, htoken⟩ := h.calls_cons hl hcalls
    have hu' : ∀ v, ¬ u'.Denotes v := fun v hv => hu v ((h.denotes htoken v).2 hv)
    exact ⟨_, .badOperand hcalls' (hop.form ▸ hform) hu', hnumber, .badOperand hop.name htoken⟩
  | @largeOperand op u us v hcalls hform hu hv =>
    obtain ⟨op', u', us', hcalls', hop, htoken⟩ := h.calls_cons hl hcalls
    refine ⟨_, .largeOperand hcalls' (hop.form ▸ hform) ((h.denotes htoken v).1 hu) hv, hnumber,
      .operandOutOfRange hop.name ?_⟩
    -- both faults show the same number, or each shows its own token
    split
    · exact h.refl _
    · exact htoken
  | badByte hcalls hform hu =>
    obtain ⟨op', u', us', hcalls', hop, htoken⟩ := h.calls_cons hl hcalls
    exact ⟨_, .badByte hcalls' (hop.form ▸ hform) ((h.byte htoken).symm.trans hu), hnumber,
      .badOperand hop.name htoken⟩
  | badByteAhead hcalls hform hsplit hblanks hq hu =>
    subst hsplit
    obtain ⟨blanks', qs', rfl, hblanks', hqs⟩ := exists_append_of_forall₂ hrest
    obtain ⟨q', after', hqq', -, rfl⟩ := List.forall₂_cons_left_iff.1 hqs
    obtain ⟨op', hcalls', hop⟩ := h.calls_nil hl hcalls
    obtain ⟨u', us', hq', htoken, -⟩ := h.tokens_cons hqq' hq
    exact ⟨_, .badByteAhead hcalls' (hop.form ▸ hform) rfl (h.blanks hblanks' hblanks) hq'
      ((h.byte htoken).symm.trans hu), h.number hqq', .badOperand hop.name htoken⟩
  | noByte hcalls hform hblank =>
    obtain ⟨op', hcalls', hop⟩ := h.calls_nil hl hcalls
    exact ⟨_, .noByte hcalls' (hop.form ▸ hform) (h.blanks hrest hblank), hnumber,
      .missingImmediate hop.name⟩

/-- A program carries over instruction by instruction, and so do its emissions. -/
theorem program {lines' : List Line} (p : Program T) (hlines : List.Forall₂ R.line p.lines lines') :
    ∃ p' : Program T', p'.lines = lines' ∧
      ∀ address, List.Forall₂ R.SameEmission (p.emissions address) (p'.emissions address) := by
  induction p generalizing lines' with
  | nil =>
    cases hlines
    exact ⟨[], rfl, fun _ => .nil⟩
  | cons i p ih =>
    rw [Program.lines_cons] at hlines
    obtain ⟨l', rest', hl, hrest, rfl⟩ := List.forall₂_cons_left_iff.1 hlines
    obtain ⟨more', lines', rfl, hmore, hlines⟩ := exists_append_of_forall₂ hrest
    obtain ⟨p', rfl, hp⟩ := ih hlines
    let i' : Instruction T' := ⟨l', more', i.bytes, h.shape hl hmore i.shape⟩
    exact ⟨i' :: p', rfl, fun address => .cons ⟨hl, rfl, rfl⟩ (hp _)⟩

end Likeness.Carries

/-- Sources whose lines correspond have the same outcome. -/
theorem assembleLines_alike {R : Likeness} {T T' : Table} (h : R.Carries T T')
    {lines lines' : List Line} (hlines : List.Forall₂ R.line lines lines')
    (hmisses : (∃ n text, (assembleLines T lines).result = .error ⟨n, .unrecognized text⟩) →
      R.SameMisses T T') :
    R.SameOutcome (assembleLines T lines).result (assembleLines T' lines').result := by
  obtain ⟨p, rfl | ⟨l, rest, k, f, rfl, hf⟩⟩ := exists_program T lines
  · obtain ⟨p', rfl, hp⟩ := h.program p hlines
    rw [assembleLines_program, assembleLines_program]
    exact .ok (hp 0)
  · obtain ⟨before', after', rfl, hbefore, hafter⟩ := exists_append_of_forall₂ hlines
    obtain ⟨l', rest', hl, hrest, rfl⟩ := List.forall₂_cons_left_iff.1 hafter
    obtain ⟨p', rfl, -⟩ := h.program p hbefore
    rw [assembleLines_faulty p hf] at hmisses ⊢
    have hunmatched : k = .unmatched → R.SameMisses T T' := by
      rintro rfl
      cases hf with
      | unmatched => exact hmisses ⟨_, _, rfl⟩
    obtain ⟨f', hf', hsame⟩ := h.faulty hl hrest hunmatched hf
    rw [assembleLines_faulty p' hf']
    exact .error hsame

end NibbleAsm
