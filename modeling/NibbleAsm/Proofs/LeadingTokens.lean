import NibbleAsm.Proofs.Likeness

/-! What of a line matters: its number and its first two tokens. Tokens after the second, and the
blanks around any of them, show only in the text by which a fault quotes an unknown line. -/

namespace NibbleAsm

/-- Lines of one number whose first two tokens are the same, or all of them if there are fewer. -/
def Line.SameLead (l l' : Line) : Prop :=
  l.number = l'.number ∧ l.tokens.take 2 = l'.tokens.take 2

/-- One line written anew: the words `kept` stay, in other blanks, and if these are two at least,
then other words may follow them. -/
def Line.Respaced (l l' : Line) : Prop :=
  l.number = l'.number ∧ ∃ kept more more',
    Text.Spaced Text.isBlank (kept ++ more) l.text.toList ∧
    Text.Spaced Text.isBlank (kept ++ more') l'.text.toList ∧
    (2 ≤ kept.length ∨ more = [] ∧ more' = [])

theorem Line.Respaced.sameLead {l l' : Line} (h : l.Respaced l') : l.SameLead l' := by
  obtain ⟨hnumber, kept, more, more', hl, hl', hkept⟩ := h
  refine ⟨hnumber, ?_⟩
  rw [tokens, tokens, hl.words_eq, hl'.words_eq, ← List.map_take, ← List.map_take]
  rcases hkept with hkept | ⟨rfl, rfl⟩
  · rw [List.take_append_of_le_length hkept, List.take_append_of_le_length hkept]
  · rfl

namespace Likeness

def lead : Likeness where
  line := Line.SameLead
  name := Eq
  token := Eq
  text _ _ := True

theorem lead_carries (T : Table) : lead.Carries T T := by
  refine .of_token_eq rfl (fun hl => hl.1) (fun hl => hl.2) (fun _ => trivial) ?_
  intro t op _ hop
  exact ⟨op, hop, rfl, rfl, rfl⟩

theorem lead_sameMisses (T : Table) : lead.SameMisses T T := by
  intro t t' ht _ hnone
  obtain rfl : t = t' := ht
  exact hnone

end Likeness

/-- Sources that agree in the first two tokens of each line assemble alike; in particular other
blanks and other tokens at the end leave the bytes as they are. -/
theorem assembleLines_sameLead (T : Table) (lines lines' : List Line) :
    (List.Forall₂ Line.SameLead lines lines' →
      Likeness.lead.SameOutcome (assembleLines T lines).result (assembleLines T lines').result) ∧
    (List.Forall₂ Line.Respaced lines lines' →
      (assembleLines T lines).result.toOption.map Listing.bytes =
        (assembleLines T lines').result.toOption.map Listing.bytes) := by
  have hlead : List.Forall₂ Line.SameLead lines lines' →
      Likeness.lead.SameOutcome (assembleLines T lines).result (assembleLines T lines').result :=
    fun hlines =>
      assembleLines_alike (Likeness.lead_carries T) hlines fun _ => Likeness.lead_sameMisses T
  refine ⟨hlead, fun hlines => ?_⟩
  exact (hlead (hlines.imp fun _ _ hl => hl.sameLead)).bytes_eq

/-- A load whose byte follows on a later line, in other blanks and with other words at the end; a
line that is not known, with less at its end; and `lda 3` with blanks of another kind and a third
word. -/
theorem assembleLines_sameLead_blanks :
    (assembleLines .withImmediate [⟨1, "ldi"⟩, ⟨2, ""⟩, ⟨3, "9 a b"⟩]).result =
      .ok ⟨[⟨⟨1, "ldi"⟩, 0, [0xC0, 9]⟩]⟩ ∧
    Likeness.lead.SameOutcome (.ok ⟨[⟨⟨1, "ldi"⟩, 0, [0xC0, 9]⟩]⟩)
      (assembleLines .withImmediate [⟨1, "\u3000ldi\t"⟩, ⟨2, "\u0085"⟩, ⟨3, " 9  a"⟩]).result ∧
    (assembleLines .withImmediate [⟨1, "LDX 1 2"⟩]).result =
      .error ⟨1, .unrecognized "LDX 1 2"⟩ ∧
    Likeness.lead.SameOutcome (.error ⟨1, .unrecognized "LDX 1 2"⟩)
      (assembleLines .withImmediate [⟨1, "LDX\t1 "⟩]).result ∧
    (assembleLines .withImmediate [⟨1, "lda 3"⟩]).result.toOption.map Listing.bytes =
      (assembleLines .withImmediate [⟨1, "\u2003lda\t3 x"⟩]).result.toOption.map Listing.bytes := by
  have hload : (assembleLines .withImmediate [⟨1, "ldi"⟩, ⟨2, ""⟩, ⟨3, "9 a b"⟩]).result =
      .ok ⟨[⟨⟨1, "ldi"⟩, 0, [0xC0, 9]⟩]⟩ := by cbv
  have hunknown : (assembleLines .withImmediate [⟨1, "LDX 1 2"⟩]).result =
      .error ⟨1, .unrecognized "LDX 1 2"⟩ := by cbv
  refine ⟨hload, ?_, hunknown, ?_, ?_⟩
  · rw [← hload]
    exact (assembleLines_sameLead .withImmediate _ _).1
      (.cons ⟨rfl, by cbv⟩ (.cons ⟨rfl, by cbv⟩ (.cons ⟨rfl, by cbv⟩ .nil)))
  · rw [← hunknown]
    exact (assembleLines_sameLead .withImmediate _ _).1 (.cons ⟨rfl, by cbv⟩ .nil)
  · have hwords : Text.Spaced Text.isBlank ([['l', 'd', 'a'], ['3']] ++ []) "lda 3".toList :=
      Text.spaced_iff.2 (by cbv)
    have hwords' : Text.Spaced Text.isBlank ([['l', 'd', 'a'], ['3']] ++ [['x']])
        "\u2003lda\t3 x".toList :=
      Text.spaced_iff.2 (by cbv)
    exact (assembleLines_sameLead .withImmediate _ _).2
      (.cons ⟨rfl, _, _, _, hwords, hwords', Or.inl (by decide)⟩ .nil)

end NibbleAsm
