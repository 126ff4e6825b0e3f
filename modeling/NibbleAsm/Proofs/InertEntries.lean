import NibbleAsm.Proofs.LetterCase
import NibbleAsm.Proofs.Likeness

/-! Entries that no line can call. The name of such an entry is no word, or reads as a literal byte,
or was taken by an entry before it. Without these entries a table assembles every source as before,
and each entry that is left is called by a line that is its name. -/

namespace NibbleAsm

/-- Whether a name is never called, where the names `earlier` are looked at before it. -/
def Token.isInert (earlier : List String) (name : Token) : Bool :=
  name.toList.isEmpty || name.toList.any Text.isBlank || name.isLiteralByte ||
    earlier.any fun other => Text.sameName other name

namespace Table

/-- What is left of a list in which names are looked for, where the names `earlier` come before it:
all but what has an inert name. -/
def live {α : Type} (name : α → String) (earlier : List String) : List α → List α
  | [] => []
  | a :: as =>
    let rest := live name (earlier ++ [name a]) as
    if Token.isInert earlier (name a) then rest else a :: rest

def pruned (T : Table) : Table where
  packed := live Entry.name [] T.packed
  single := live Entry.name (T.packed.map Entry.name) T.single
  immediate := live Entry.name ((T.packed ++ T.single).map Entry.name) T.immediate

end Table

theorem Token.CanName.of_sameName {s t : Token} (ht : t.CanName) (h : Text.sameName s t = true) :
    s.CanName :=
  ⟨ht.1.of_sameName h, (isLiteralByte_congr h).trans ht.2⟩

theorem Token.isInert_eq_false_iff {earlier : List String} {name : Token} :
    name.isInert earlier = false ↔
      name.CanName ∧ ∀ other ∈ earlier, Text.sameName other name = false := by
  simp [isInert, CanName, IsWord, and_assoc]

namespace Table

section Live

variable {α β : Type} {name : α → String} {earlier : List String}

theorem live_append (earlier : List String) (as bs : List α) :
    live name earlier (as ++ bs) =
      live name earlier as ++ live name (earlier ++ as.map name) bs := by
  induction as generalizing earlier with
  | nil => simp [live]
  | cons a as ih =>
    have hearlier : earlier ++ [name a] ++ as.map name = earlier ++ (a :: as).map name := by simp
    simp only [List.cons_append, live, ih, hearlier]
    split <;> rfl

theorem live_map (f : β → α) (earlier : List String) (bs : List β) :
    live name earlier (bs.map f) = (live (name ∘ f) earlier bs).map f := by
  induction bs generalizing earlier with
  | nil => rfl
  | cons b bs ih =>
    simp only [List.map_cons, live, ih, Function.comp_apply]
    split <;> rfl

theorem of_mem_live {as : List α} {a : α} (ha : a ∈ live name earlier as) :
    a ∈ as ∧ Token.CanName (name a) ∧ ∀ other ∈ earlier, Text.sameName other (name a) = false := by
  induction as generalizing earlier with
  | nil => cases ha
  | cons b as ih =>
    have hrest : a ∈ live name (earlier ++ [name b]) as →
        a ∈ b :: as ∧ Token.CanName (name a) ∧
          ∀ other ∈ earlier, Text.sameName other (name a) = false := by
      intro ha
      obtain ⟨hmem, hname, hother⟩ := ih ha
      exact ⟨List.mem_cons_of_mem b hmem, hname, (List.forall_mem_append.1 hother).1⟩
    simp only [live] at ha
    split at ha
    · exact hrest ha
    next hb =>
      rcases List.mem_cons.1 ha with rfl | ha
      · exact ⟨List.mem_cons_self, Token.isInert_eq_false_iff.1 (Bool.of_not_eq_true hb)⟩
      · exact hrest ha

theorem pairwise_live (name : α → String) (earlier : List String) (as : List α) :
    (live name earlier as).Pairwise fun a b => Text.sameName (name a) (name b) = false := by
  induction as generalizing earlier with
  | nil => exact .nil
  | cons a as ih =>
    simp only [live]
    split
    · exact ih _
    · refine List.pairwise_cons.2 ⟨fun b hb => ?_, ih _⟩
      obtain ⟨-, -, hother⟩ := of_mem_live hb
      exact hother (name a) (by simp)

theorem find?_live {t : Token} (ht : t.CanName)
    (hearlier : ∀ other ∈ earlier, Text.sameName other t = false) (as : List α) :
    (live name earlier as).find? (fun a => Text.sameName (name a) t) =
      as.find? fun a => Text.sameName (name a) t := by
  induction as generalizing earlier with
  | nil => rfl
  | cons a as ih =>
    cases hname : Text.sameName (name a) t with
    | true =>
      -- the first entry called `t` stays, since what makes a name inert holds of `t` as well
      have hother : ∀ other ∈ earlier, Text.sameName other (name a) = false := by
        intro other hmem
        rw [Text.sameName, Text.sameName_iff.1 hname]
        exact hearlier other hmem
      have hlive : Token.isInert earlier (name a) = false :=
        Token.isInert_eq_false_iff.2 ⟨ht.of_sameName hname, hother⟩
      simp only [live, hlive, Bool.false_eq_true, if_false, List.find?_cons, hname]
    | false =>
      have hearlier' : ∀ other ∈ earlier ++ [name a], Text.sameName other t = false := by
        simpa [or_imp, forall_and, hname] using hearlier
      simp only [live]
      split
      · rw [ih hearlier', List.find?_cons, hname]
      · rw [List.find?_cons, List.find?_cons, hname, ih hearlier']

end Live

theorem opcodes_pruned (T : Table) : T.pruned.opcodes = live Opcode.name [] T.opcodes := by
  have hname : ∀ form, Opcode.name ∘ Entry.opcode form = Entry.name := fun _ => rfl
  simp only [opcodes, live_append, live_map, List.map_append, List.map_map, hname, List.nil_append]
  simp only [pruned, List.map_append]

theorem find?_pruned (T : Table) {t : Token} (ht : t.CanName) : T.pruned.find? t = T.find? t := by
  rw [find?, opcodes_pruned, find?_live ht (List.forall_mem_nil _), find?]

theorem find?_name_of_mem_pruned {T : Table} {op : Opcode} (hop : op ∈ T.pruned.opcodes) :
    T.pruned.find? op.name = some op := by
  rw [opcodes_pruned] at hop
  have hdistinct := pairwise_live Opcode.name [] T.opcodes
  obtain ⟨before, after, hops⟩ := List.append_of_mem hop
  rw [hops, List.pairwise_append] at hdistinct
  refine find?_eq_some_iff.2 ⟨before, after, (opcodes_pruned T).trans hops,
    Text.sameName_iff.2 rfl, fun other hother => ?_⟩
  exact hdistinct.2.2 other hother op List.mem_cons_self

end Table

theorem Line.statement_pruned (T : Table) (l : Line) : l.statement T.pruned = l.statement T := by
  cases hl : l.tokens with
  | nil => rw [statement, statement, hl, Statement.ofTokens, Statement.ofTokens]
  | cons t args =>
    cases ht : t.isLiteralByte with
    | true => rw [statement_of_literal hl ht, statement_of_literal hl ht]
    | false =>
      rw [statement_of_not_literal hl ht, statement_of_not_literal hl ht,
        Table.find?_pruned T (canName_of_tokens hl ht)]

/-- Tables by which every line says the same assemble alike, and log alike. -/
theorem Assembler.collect_congr {T T' : Table} (h : ∀ l : Line, l.statement T' = l.statement T)
    (lines : List Line) (address : ℕ) (before : Listing) :
    collect ⟨T', ⟨lines⟩, address, before⟩ = collect ⟨T, ⟨lines⟩, address, before⟩ := by
  induction hsize : lines.length using Nat.strong_induction_on generalizing lines address with
  | _ n ih =>
    cases lines with
    | nil => rw [collect, collect]
    | cons l ls =>
      have hrest := ((l.statement T).suffix_encode l ⟨ls⟩).length_le
      rw [collect, collect]
      simp only [stepLine, h l]
      cases ((l.statement T).encode l ⟨ls⟩).bytes with
      | error f => rfl
      | ok bytes =>
        have hlt : ((l.statement T).encode l ⟨ls⟩).rest.remaining.length < n := by
          rw [← hsize, List.length_cons]
          exact Nat.lt_succ_of_le hrest
        simp only [ih _ hlt _ _ rfl]

theorem assembleLines_congr {T T' : Table} (h : ∀ l : Line, l.statement T' = l.statement T)
    (lines : List Line) : assembleLines T' lines = assembleLines T lines := by
  rw [assembleLines, assembleLines, Assembler.start, Assembler.start, Assembler.run, Assembler.run,
    Assembler.collect_congr h]

/-- A table assembles as it does without its inert entries, and of the others each has a name of its
own and is called by some line. -/
theorem assembleLines_pruned (T : Table) :
    (∀ lines, assembleLines T.pruned lines = assembleLines T lines) ∧
    (T.pruned.opcodes.Pairwise fun op other => Text.sameName op.name other.name = false) ∧
    ∀ op ∈ T.pruned.opcodes, ∃ l : Line,
      l.statement T.pruned = Statement.ofOpcode op none ∧
      l.statement T = Statement.ofOpcode op none := by
  refine ⟨assembleLines_congr (Line.statement_pruned T), ?_, fun op hop => ?_⟩
  · rw [Table.opcodes_pruned]
    exact Table.pairwise_live Opcode.name [] T.opcodes
  · have hname : Token.CanName op.name := by
      rw [Table.opcodes_pruned] at hop
      exact (Table.of_mem_live hop).2.1
    have hcalls : (⟨1, op.name⟩ : Line).Calls T.pruned op [] :=
      ⟨op.name, Line.tokens_word 1 hname.1, hname.2,
        Table.find?_eq_some_iff.1 (Table.find?_name_of_mem_pruned hop)⟩
    have hstatement := Line.statement_of_calls hcalls
    exact ⟨⟨1, op.name⟩, hstatement, (Line.statement_pruned T _).symm.trans hstatement⟩

def Table.cluttered : Table where
  packed := [⟨"", 0x10⟩, ⟨"LDA", 0x20⟩, ⟨"LD A", 0x30⟩, ⟨"lda", 0x40⟩]
  single := [⟨"0Xad", 0x50⟩, ⟨"Lda", 0x60⟩, ⟨"HLT", 0x70⟩]
  immediate := [⟨"hlt", 0xA0⟩, ⟨"99", 0xB0⟩, ⟨"LDI", 0xC0⟩]

theorem assembleLines_pruned_cluttered :
    Table.cluttered.pruned = ⟨[⟨"LDA", 0x20⟩], [⟨"HLT", 0x70⟩], [⟨"LDI", 0xC0⟩]⟩ ∧
    assembleLines ⟨[⟨"LDA", 0x20⟩], [⟨"HLT", 0x70⟩], [⟨"LDI", 0xC0⟩]⟩
        [⟨1, "lda 3"⟩, ⟨2, "hlt"⟩, ⟨3, "ldi 9"⟩, ⟨4, "99"⟩] =
      assembleLines .cluttered [⟨1, "lda 3"⟩, ⟨2, "hlt"⟩, ⟨3, "ldi 9"⟩, ⟨4, "99"⟩] ∧
    ∃ l : Line, l.statement .cluttered = .immediate ⟨"LDI", .immediate, 0xC0⟩ none := by
  have hpruned : Table.cluttered.pruned =
      ⟨[⟨"LDA", 0x20⟩], [⟨"HLT", 0x70⟩], [⟨"LDI", 0xC0⟩]⟩ := by decide
  obtain ⟨hsame, -, hcalled⟩ := assembleLines_pruned .cluttered
  rw [hpruned] at hsame hcalled
  obtain ⟨l, -, hl⟩ := hcalled ⟨"LDI", .immediate, 0xC0⟩ (by decide)
  exact ⟨hpruned, hsame _, l, hl⟩

end NibbleAsm
