import NibbleAsm.Proofs.Grammar

/-! Output taken apart again. Where the high half of a byte tells the opcodes of a table apart and
packed opcodes leave the low half to the operand, the first byte of an instruction gives its opcode,
the opcode gives the length, and so a stream of bytes comes from one list of operations only. -/

namespace NibbleAsm

/-- An opcode with its operand: a number below sixteen, none, or a byte. -/
inductive Operation where
  | packed (op : Opcode) (v : Fin 16)
  | single (op : Opcode)
  | immediate (op : Opcode) (x : UInt8)
deriving DecidableEq, Repr

namespace Operation

def opcode : Operation → Opcode
  | .packed op _ => op
  | .single op => op
  | .immediate op _ => op

def form : Operation → Form
  | .packed _ _ => .packed
  | .single _ => .single
  | .immediate _ _ => .immediate

def bytes : Operation → List UInt8
  | .packed op v => [UInt8.ofNat (op.base.toNat + v)]
  | .single op => [op.base]
  | .immediate op x => [op.base, x]

/-- The opcode is one of the table and has the form of the operation. -/
structure Of (T : Table) (o : Operation) : Prop where
  mem : o.opcode ∈ T.opcodes
  form : o.opcode.form = o.form

end Operation

/-- `Performs T l more o`: the instruction that starts on line `l` and takes the lines `more`
besides calls the opcode of `o` with the operand of `o`. -/
inductive Performs (T : Table) (l : Line) : List Line → Operation → Prop
  | packed {op : Opcode} {u : Token} {args : List Token} {v : Fin 16}
      (hl : l.Calls T op (u :: args)) (hform : op.form = .packed) (hu : u.Denotes v) :
      Performs T l [] (.packed op v)
  | single {op : Opcode} {args : List Token} (hl : l.Calls T op args) (hform : op.form = .single) :
      Performs T l [] (.single op)
  | immediate {op : Opcode} {u : Token} {args : List Token} {x : UInt8}
      (hl : l.Calls T op (u :: args)) (hform : op.form = .immediate) (hu : u.byte = .ok x) :
      Performs T l [] (.immediate op x)
  | lookahead {op : Opcode} {blanks : List Line} {q : Line} {u : Token} {args : List Token}
      {x : UInt8} (hl : l.Calls T op []) (hform : op.form = .immediate)
      (hblanks : ∀ z ∈ blanks, z.isBlank = true) (hq : q.tokens = u :: args)
      (hu : u.byte = .ok x) : Performs T l (blanks ++ [q]) (.immediate op x)

def Line.StartsCall (l : Line) : Prop :=
  l.isBlank = false ∧ ∀ t ∈ l.firstToken?, t.isLiteralByte = false

theorem Line.startsCall_iff {l : Line} :
    l.StartsCall ↔ ∃ t args, l.tokens = t :: args ∧ t.isLiteralByte = false := by
  rw [StartsCall, firstToken?]
  constructor
  · intro h
    cases ht : l.tokens with
    | nil => exact Bool.noConfusion (h.1.symm.trans (isBlank_iff.2 ht))
    | cons t args => exact ⟨t, args, rfl, h.2 t (by rw [ht, List.head?_cons, Option.mem_some])⟩
  · rintro ⟨t, args, ht, hbyte⟩
    refine ⟨not_isBlank_of_tokens ht, fun t' ht' => ?_⟩
    rw [ht, List.head?_cons, Option.mem_some] at ht'
    rw [← ht', hbyte]

/-- Packed opcodes leave the low half of their byte free, and no two opcodes share the high half. -/
structure Table.Separated (T : Table) : Prop where
  packed : ∀ e ∈ T.packed, e.base.toNat % 16 = 0
  distinct : T.opcodes.Pairwise fun op other => op.base.toNat / 16 ≠ other.base.toNat / 16

theorem Table.standard_separated : Table.standard.Separated :=
  ⟨by decide, by decide⟩

theorem Performs.of {T : Table} {l : Line} {more : List Line} {o : Operation}
    (h : Performs T l more o) : o.Of T := by
  cases h with
  | packed hl hform => exact ⟨hl.mem_opcodes, hform⟩
  | single hl hform => exact ⟨hl.mem_opcodes, hform⟩
  | immediate hl hform => exact ⟨hl.mem_opcodes, hform⟩
  | lookahead hl hform => exact ⟨hl.mem_opcodes, hform⟩

/-- An instruction is a pad, a literal byte or an operation, and its bytes are those of the
operation. -/
theorem Shape.exists_performs {T : Table} {l : Line} {more : List Line} {bytes : List UInt8}
    (h : Shape T l more bytes) (hl : l.StartsCall) :
    ∃ o, Performs T l more o ∧ bytes = o.bytes := by
  obtain ⟨t, rest, htokens, hbyte⟩ := Line.startsCall_iff.1 hl
  cases h with
  | pad hblank =>
    exact absurd (htokens.symm.trans (Line.isBlank_iff.1 hblank)) (List.cons_ne_nil _ _)
  | literal ht hliteral =>
    obtain ⟨rfl, -⟩ := List.cons.inj (htokens.symm.trans ht)
    exact Bool.noConfusion (hbyte.symm.trans hliteral)
  | @packed op u args v hcalls hform hu hv =>
    exact ⟨.packed op ⟨v, by omega⟩, .packed hcalls hform hu, rfl⟩
  | single hcalls hform => exact ⟨_, .single hcalls hform, rfl⟩
  | immediate hcalls hform hu => exact ⟨_, .immediate hcalls hform hu, rfl⟩
  | lookahead hcalls hform hblanks hq hu =>
    exact ⟨_, .lookahead hcalls hform hblanks hq hu, rfl⟩

namespace Table.Separated

variable {T : Table} (hT : T.Separated)

include hT

theorem base_mod {op : Opcode} (hop : op ∈ T.opcodes) (hform : op.form = .packed) :
    op.base.toNat % 16 = 0 := by
  simp only [opcodes, List.mem_append, List.mem_map] at hop
  rcases hop with (⟨e, he, rfl⟩ | ⟨e, -, rfl⟩) | ⟨e, -, rfl⟩
  · exact hT.packed e he
  · cases hform
  · cases hform

theorem opcode_eq {op other : Opcode} (hop : op ∈ T.opcodes) (hother : other ∈ T.opcodes)
    (h : op.base.toNat / 16 = other.base.toNat / 16) : op = other := by
  have hsymm : Std.Symm fun op other : Opcode => op.base.toNat / 16 ≠ other.base.toNat / 16 :=
    ⟨fun _ _ => Ne.symm⟩
  by_contra hne
  exact hT.distinct.forall hop hother hne h

theorem packed_toNat {op : Opcode} {v : Fin 16} (ho : (Operation.packed op v).Of T) :
    (UInt8.ofNat (op.base.toNat + v)).toNat = op.base.toNat + v := by
  have hmod := hT.base_mod ho.mem ho.form
  have hbase : op.base.toNat < 256 := op.base.toNat_lt
  have hv := v.isLt
  -- a base that ends in a zero half has room for fifteen more
  simp only [Operation.opcode] at hmod
  exact UInt8.toNat_ofNat_of_lt' (show op.base.toNat + v < 256 by omega)

/-- The operand does not reach the high half of the first byte. -/
theorem bytes_eq_cons {o : Operation} (ho : o.Of T) :
    ∃ b rest, o.bytes = b :: rest ∧ b.toNat / 16 = o.opcode.base.toNat / 16 := by
  cases o with
  | packed op v =>
    have hmod := hT.base_mod ho.mem ho.form
    have hv := v.isLt
    refine ⟨_, [], rfl, ?_⟩
    rw [hT.packed_toNat ho]
    simp only [Operation.opcode] at hmod ⊢
    omega
  | single op => exact ⟨_, _, rfl, rfl⟩
  | immediate op x => exact ⟨_, _, rfl, rfl⟩

/-- The bytes of an operation give it back, and what follows them too. -/
theorem bytes_append_inj {o o' : Operation} (ho : o.Of T) (ho' : o'.Of T) {r r' : List UInt8}
    (h : o.bytes ++ r = o'.bytes ++ r') : o = o' ∧ r = r' := by
  have hop : o.opcode = o'.opcode := by
    obtain ⟨b, rest, hbytes, hb⟩ := hT.bytes_eq_cons ho
    obtain ⟨b', rest', hbytes', hb'⟩ := hT.bytes_eq_cons ho'
    rw [hbytes, hbytes', List.cons_append, List.cons_append] at h
    obtain ⟨rfl, -⟩ := List.cons.inj h
    exact hT.opcode_eq ho.mem ho'.mem (hb.symm.trans hb')
  have hform : o.form = o'.form := by rw [← ho.form, ← ho'.form, hop]
  cases o with
  | packed op v =>
    cases o' with
    | packed op' v' =>
      obtain rfl : op = op' := hop
      obtain ⟨hbyte, hrest⟩ := List.cons.inj h
      have hnat := congrArg UInt8.toNat hbyte
      rw [hT.packed_toNat ho, hT.packed_toNat ho'] at hnat
      obtain rfl : v = v' := Fin.ext (by omega)
      exact ⟨rfl, hrest⟩
    | _ => cases hform
  | single op =>
    cases o' with
    | single op' =>
      obtain rfl : op = op' := hop
      exact ⟨rfl, (List.cons.inj h).2⟩
    | _ => cases hform
  | immediate op x =>
    cases o' with
    | immediate op' x' =>
      obtain rfl : op = op' := hop
      obtain ⟨rfl, hrest⟩ := List.cons.inj (List.cons.inj h).2
      exact ⟨rfl, hrest⟩
    | _ => cases hform

/-- A stream of bytes comes from one list of operations at most. -/
theorem flatMap_bytes_inj {os os' : List Operation} (hos : ∀ o ∈ os, o.Of T)
    (hos' : ∀ o ∈ os', o.Of T) (h : os.flatMap Operation.bytes = os'.flatMap Operation.bytes) :
    os = os' := by
  have hne : ∀ o : Operation, o.bytes ≠ [] := by
    intro o
    cases o <;> exact List.cons_ne_nil _ _
  induction os generalizing os' with
  | nil =>
    cases os' with
    | nil => rfl
    | cons o' os' => exact absurd (List.append_eq_nil_iff.1 h.symm).1 (hne o')
  | cons o os ih =>
    cases os' with
    | nil => exact absurd (List.append_eq_nil_iff.1 h).1 (hne o)
    | cons o' os' =>
      obtain ⟨ho, htail⟩ := List.forall_mem_cons.1 hos
      obtain ⟨ho', htail'⟩ := List.forall_mem_cons.1 hos'
      obtain ⟨rfl, hstream⟩ := hT.bytes_append_inj ho ho' h
      rw [ih htail htail' hstream]

end Table.Separated

namespace Program

variable {T : Table}

def Decodes (p : Program T) (os : List Operation) : Prop :=
  List.Forall₂ (fun (i : Instruction T) o => Performs T i.line i.more o ∧ i.bytes = o.bytes) p os

theorem exists_decodes {p : Program T} (h : ∀ e ∈ p.listing.emissions, e.line.StartsCall) :
    ∃ os, p.Decodes os := by
  have hlines : ∀ l ∈ p.map Instruction.line, l.StartsCall := by
    rw [← map_line_emissions 0]
    exact List.forall_mem_map.2 h
  clear h
  induction p with
  | nil => exact ⟨[], .nil⟩
  | cons i p ih =>
    obtain ⟨hi, hp⟩ := List.forall_mem_cons.1 hlines
    obtain ⟨o, ho⟩ := i.shape.exists_performs hi
    obtain ⟨os, hos⟩ := ih hp
    exact ⟨o :: os, .cons ho hos⟩

namespace Decodes

variable {p q : Program T} {os : List Operation}

theorem of (h : p.Decodes os) : ∀ o ∈ os, o.Of T := by
  induction h with
  | nil => exact List.forall_mem_nil _
  | cons ho _ ih => exact List.forall_mem_cons.2 ⟨ho.1.of, ih⟩

theorem bytes_listing (h : p.Decodes os) : p.listing.bytes = os.flatMap Operation.bytes := by
  rw [Program.bytes_listing]
  induction h with
  | nil => rfl
  | cons ho _ ih => rw [List.flatMap_cons, List.flatMap_cons, ho.2, ih]

theorem map_address_emissions (hp : p.Decodes os) (hq : q.Decodes os) (address : ℕ) :
    (p.emissions address).map Emission.address = (q.emissions address).map Emission.address := by
  induction hp generalizing q address with
  | nil =>
    cases hq
    rfl
  | cons hi _ ih =>
    cases hq with
    | cons hj hq =>
      rw [emissions, emissions, List.map_cons, List.map_cons, hi.2, hj.2, ih hq]

end Decodes

end Program

/-- By a table that is separated, as the standard one is, sources that consist of calls and have the
same output have emissions at the same addresses, and one by one these are of the same opcode with
the same operand. -/
theorem assembleLines_decodable :
    Table.standard.Separated ∧
    ∀ (T : Table) (A B : List Line) (L M : Listing), T.Separated →
      (assembleLines T A).result = .ok L → (assembleLines T B).result = .ok M →
      L.bytes = M.bytes → (∀ e ∈ L.emissions, e.line.StartsCall) →
      (∀ e ∈ M.emissions, e.line.StartsCall) →
      L.emissions.length = M.emissions.length ∧
      L.emissions.map Emission.address = M.emissions.map Emission.address ∧
      ∃ (p q : Program T) (os : List Operation), p.lines = A ∧ p.listing = L ∧ q.lines = B ∧
        q.listing = M ∧ p.Decodes os ∧ q.Decodes os := by
  refine ⟨Table.standard_separated, ?_⟩
  intro T A B L M hT hA hB hbytes hL hM
  obtain ⟨p, rfl, rfl⟩ := exists_program_of_ok hA
  obtain ⟨q, rfl, rfl⟩ := exists_program_of_ok hB
  obtain ⟨os, hp⟩ := Program.exists_decodes hL
  obtain ⟨os', hq⟩ := Program.exists_decodes hM
  rw [hp.bytes_listing, hq.bytes_listing] at hbytes
  obtain rfl := hT.flatMap_bytes_inj hp.of hq.of hbytes
  have haddresses := hp.map_address_emissions hq 0
  have hlength := congrArg List.length haddresses
  rw [List.length_map, List.length_map] at hlength
  exact ⟨hlength, haddresses, p, q, os, rfl, rfl, rfl, rfl, hp, hq⟩

/-- The operand of `LDI` is the byte of `HLT`, and comes from a line below or from its own. -/
theorem assembleLines_decodable_load :
    (assembleLines .withImmediate [⟨1, "ldi"⟩, ⟨2, ""⟩, ⟨3, "0x50"⟩, ⟨4, "lda 0xF"⟩]).result =
      .ok ⟨[⟨⟨1, "ldi"⟩, 0, [0xC0, 0x50]⟩, ⟨⟨4, "lda 0xF"⟩, 2, [0x1F]⟩]⟩ ∧
    (assembleLines .withImmediate [⟨1, "LDI 80"⟩, ⟨2, "LDA 15"⟩]).result =
      .ok ⟨[⟨⟨1, "LDI 80"⟩, 0, [0xC0, 0x50]⟩, ⟨⟨2, "LDA 15"⟩, 2, [0x1F]⟩]⟩ ∧
    ∃ (p q : Program .withImmediate) (os : List Operation),
      p.lines = [⟨1, "ldi"⟩, ⟨2, ""⟩, ⟨3, "0x50"⟩, ⟨4, "lda 0xF"⟩] ∧
      q.lines = [⟨1, "LDI 80"⟩, ⟨2, "LDA 15"⟩] ∧ p.Decodes os ∧ q.Decodes os := by
  have hbelow : (assembleLines .withImmediate
      [⟨1, "ldi"⟩, ⟨2, ""⟩, ⟨3, "0x50"⟩, ⟨4, "lda 0xF"⟩]).result =
      .ok ⟨[⟨⟨1, "ldi"⟩, 0, [0xC0, 0x50]⟩, ⟨⟨4, "lda 0xF"⟩, 2, [0x1F]⟩]⟩ := by cbv
  have hsame : (assembleLines .withImmediate [⟨1, "LDI 80"⟩, ⟨2, "LDA 15"⟩]).result =
      .ok ⟨[⟨⟨1, "LDI 80"⟩, 0, [0xC0, 0x50]⟩, ⟨⟨2, "LDA 15"⟩, 2, [0x1F]⟩]⟩ := by cbv
  have hcalls : (⟨1, "ldi"⟩ : Line).StartsCall ∧ (⟨4, "lda 0xF"⟩ : Line).StartsCall :=
    ⟨Line.startsCall_iff.2 ⟨"ldi", [], by cbv, by cbv⟩,
      Line.startsCall_iff.2 ⟨"lda", ["0xF"], by cbv, by cbv⟩⟩
  have hcalls' : (⟨1, "LDI 80"⟩ : Line).StartsCall ∧ (⟨2, "LDA 15"⟩ : Line).StartsCall :=
    ⟨Line.startsCall_iff.2 ⟨"LDI", ["80"], by cbv, by cbv⟩,
      Line.startsCall_iff.2 ⟨"LDA", ["15"], by cbv, by cbv⟩⟩
  obtain ⟨-, -, p, q, os, hp, -, hq, -, hos⟩ := assembleLines_decodable.2 _ _ _ _ _
    ⟨by decide, by decide⟩ hbelow hsame rfl (by simpa using hcalls) (by simpa using hcalls')
  exact ⟨hbelow, hsame, p, q, os, hp, hq, hos⟩

end NibbleAsm
