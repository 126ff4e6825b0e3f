import NibbleAsm.Proofs.Instruction
import NibbleAsm.Proofs.NumberTokens

/-! The three readings of a token beside each other. Every literal byte has a byte, so a line that
starts with one is never in trouble. The byte and the operand are read from the same spellings but
for a single letter, which is an operand only, and where both are there they agree modulo 256. -/

namespace NibbleAsm

namespace Text

theorem DecimalDigits.hexDigits {s : List Char} (h : DecimalDigits s) : HexDigits s :=
  ⟨h.1, fun c hc => Or.inl (h.2 c hc)⟩

end Text

namespace Token

variable {t : Token}

def IsHexLetter (t : Token) : Prop :=
  ∃ c, t.toList = [c] ∧ (('a' ≤ c ∧ c ≤ 'f') ∨ ('A' ≤ c ∧ c ≤ 'F'))

theorem isHexLetter_iff :
    t.IsHexLetter ↔
      Text.HexDigits t.toList ∧ t.toList.length = 1 ∧ ¬ Text.DecimalDigits t.toList := by
  constructor
  · rintro ⟨c, hc, hletter⟩
    rw [hc]
    refine ⟨⟨by simp, by simp [hletter]⟩, rfl, ?_⟩
    rintro ⟨-, hdec⟩
    have hhi : c.toNat ≤ 57 := (hdec c (by simp)).2
    rcases hletter with h | h
    · have hlo : 97 ≤ c.toNat := h.1
      omega
    · have hlo : 65 ≤ c.toNat := h.1
      omega
  · rintro ⟨hhex, hlen, hdec⟩
    obtain ⟨c, hc⟩ := List.length_eq_one_iff.1 hlen
    rw [hc] at hhex hdec
    refine ⟨c, hc, (hhex.2 c (by simp)).resolve_left ?_⟩
    intro hc
    exact hdec ⟨by simp, by simpa using hc⟩

theorem isHexPair_iff_hexDigits {s : List Char} :
    isHexPair s = true ↔ Text.HexDigits s ∧ s.length = 2 := by
  rw [isHexPair_iff, Text.hexDigits_iff]
  constructor
  · rintro ⟨hlen, hs⟩
    have hne : s ≠ [] := by
      rintro rfl
      simp at hlen
    exact ⟨⟨hne, hs⟩, hlen⟩
  · rintro ⟨⟨-, hs⟩, hlen⟩
    exact ⟨hlen, hs⟩

theorem isLiteralByte_iff_of_hexDigits (h : Text.HexDigits t.toList) :
    t.isLiteralByte = true ↔ Text.DecimalDigits t.toList ∨ t.toList.length = 2 := by
  have hunmarked := Numeral.unmarked_of_digits (Text.hexDigits_iff.1 h).2
  rw [isLiteralByte_of_unmarked hunmarked, Bool.or_eq_true, isHexPair_iff_hexDigits, isDecimal_iff,
    ← Text.decimalDigits_iff, or_comm]
  simp [h]

theorem isLiteralByte_iff_of_markedHex {ds : List Char} (h : Text.MarkedHex t.toList ds) :
    t.isLiteralByte = true ↔ ds.length = 2 := by
  obtain ⟨hs, hds⟩ := h
  have hpair : t.isLiteralByte = isHexPair ds := by
    rcases hs with hs | hs
    · exact isLiteralByte_of_marked (Or.inl rfl) hs
    · exact isLiteralByte_of_marked (Or.inr rfl) hs
  rw [hpair, isHexPair_iff_hexDigits]
  simp [hds]

theorem stripped_of_no_blank (h : ∀ c ∈ t.toList, Text.isBlank c = false) :
    t.stripped = t.toList :=
  Text.trim_of_no_sep h

/-- A byte that is no literal byte has a mark and any number of digits but two. -/
theorem exists_byte_and_not_isLiteralByte_iff (h : ∀ c ∈ t.toList, Text.isBlank c = false) :
    (∃ b, t.byte = .ok b) ∧ t.isLiteralByte = false ↔
      ∃ ds, Text.MarkedHex t.toList ds ∧ ds.length ≠ 2 := by
  rw [exists_byte_iff, stripped_of_no_blank h, ← Bool.not_eq_true]
  constructor
  · rintro ⟨⟨ds, hds⟩ | hdec | ⟨hhex, hlen⟩, hliteral⟩
    · rw [isLiteralByte_iff_of_markedHex hds] at hliteral
      exact ⟨ds, hds, hliteral⟩
    · exact absurd ((isLiteralByte_iff_of_hexDigits hdec.hexDigits).2 (Or.inl hdec)) hliteral
    · exact absurd ((isLiteralByte_iff_of_hexDigits hhex).2 (Or.inr hlen)) hliteral
  · rintro ⟨ds, hds, hlen⟩
    rw [isLiteralByte_iff_of_markedHex hds]
    exact ⟨Or.inl ⟨ds, hds⟩, hlen⟩

/-- The operand takes every spelling that the byte takes, and one letter besides. -/
theorem operand_eq_malformed_iff_byte (h : ∀ c ∈ t.toList, Text.isBlank c = false) :
    t.operand = .error .malformed ↔ t.byte = .error .malformed ∧ ¬ t.IsHexLetter := by
  rw [byte_eq_malformed_iff, exists_byte_iff, stripped_of_no_blank h, isHexLetter_iff,
    operand_eq_malformed_iff, ← not_or, not_iff_not]
  constructor
  · rintro (hmarked | ⟨hhex, hlen, hletter⟩ | hdec)
    · exact Or.inl (Or.inl hmarked)
    · have hpos : t.toList.length ≠ 0 := by simpa using hhex.1
      rcases (by omega : t.toList.length = 1 ∨ t.toList.length = 2) with hone | htwo
      · exact Or.inr ⟨hhex, hone, hletter⟩
      · exact Or.inl (Or.inr (Or.inr ⟨hhex, htwo⟩))
    · exact Or.inl (Or.inr (Or.inl hdec))
  · rintro ((hmarked | hdec | ⟨hhex, hlen⟩) | ⟨hhex, hlen, hletter⟩)
    · exact Or.inl hmarked
    · exact Or.inr (Or.inr hdec)
    · by_cases hdec : Text.DecimalDigits t.toList
      · exact Or.inr (Or.inr hdec)
      · exact Or.inr (Or.inl ⟨hhex, hlen.le, hdec⟩)
    · exact Or.inr (Or.inl ⟨hhex, by omega, hletter⟩)

theorem denotes_of_operand {v : ℕ} (h : t.operand = .ok v) : t.Denotes v := by
  by_cases hnone : ∀ w, ¬ t.Denotes w
  · rw [operand_of_not_denotes hnone] at h
    cases h
  · push Not at hnone
    obtain ⟨w, hw⟩ := hnone
    rw [operand_of_denotes hw] at h
    split_ifs at h with hword
    obtain rfl := Except.ok.inj h
    exact hw

/-- A token that is both a byte and an operand spells one number for both. -/
theorem toNat_eq_mod_of_operand {v : ℕ} {b : UInt8} (hv : t.operand = .ok v)
    (hb : t.byte = .ok b) : b.toNat = v % 256 := by
  obtain ⟨radix, ds, hs, rfl⟩ := denotes_of_operand hv
  obtain ⟨radix', ds', hs', rfl⟩ := byte_eq_ok_iff.1 hb
  rw [Text.trim_of_no_sep (not_isBlank_of_spelling hs)] at hs'
  rw [UInt8.toNat_ofNat', positional_eq_literalValue hs, positional_eq_literalValue hs']

/-- A literal byte at the start of a line is what the line gives, whatever the table and the lines
that follow. -/
theorem encode_of_byte {b : UInt8} (ht : t.isLiteralByte = true) (hb : t.byte = .ok b)
    (T : Table) {l : Line} {args : List Token} (hl : l.tokens = t :: args) (rest : Feed) :
    (l.statement T).encode l rest = ⟨.ok [b], [], rest⟩ := by
  obtain rfl := Except.ok.inj ((byte_of_isLiteralByte ht).symm.trans hb)
  exact (Shape.literal hl ht).encode_eq rest.remaining

/-- A literal byte is a byte, and the line it starts gives this byte and no fault. Of tokens without
blanks, those that are a byte but no literal byte have a mark and one digit or more than two; those
that are no operand are no byte either, and no single letter; and what is both an operand and a byte
is the same number, as a byte modulo 256. -/
theorem readings_agree (t : Token) :
    (t.isLiteralByte = true →
      ∃ b, t.byte = .ok b ∧
        ∀ (T : Table) (l : Line) (args : List Token) (rest : Feed), l.tokens = t :: args →
          (l.statement T).encode l rest = ⟨.ok [b], [], rest⟩) ∧
    ((∀ c ∈ t.toList, Text.isBlank c = false) →
      ((∃ b, t.byte = .ok b) ∧ t.isLiteralByte = false ↔
        ∃ ds, Text.MarkedHex t.toList ds ∧ ds.length ≠ 2) ∧
      (t.operand = .error .malformed ↔ t.byte = .error .malformed ∧ ¬ t.IsHexLetter) ∧
      ∀ v b, t.operand = .ok v → t.byte = .ok b → b.toNat = v % 256) := by
  constructor
  · intro ht
    have hb := byte_of_isLiteralByte ht
    exact ⟨_, hb, fun T l args rest hl => encode_of_byte ht hb T hl rest⟩
  · intro h
    refine ⟨exists_byte_and_not_isLiteralByte_iff h, operand_eq_malformed_iff_byte h, ?_⟩
    intro v b hv hb
    exact toNat_eq_mod_of_operand hv hb

/-- A literal byte wins over an opcode spelled like it; three digits after a mark are a byte and an
operand wider than a byte; one letter is an operand, and three digits without a mark are nothing. -/
theorem readings_agree_spellings :
    (∃ b, byte "7F" = .ok b ∧
      (Line.statement ⟨[⟨"7f", 0x10⟩], [], []⟩ ⟨1, "7F 3"⟩).encode ⟨1, "7F 3"⟩ ⟨[⟨2, "?"⟩]⟩ =
        ⟨.ok [b], [], ⟨[⟨2, "?"⟩]⟩⟩) ∧
    ((∃ b, byte "0X1ff" = .ok b) ∧ isLiteralByte "0X1ff" = false) ∧
    operand "f" ≠ .error .malformed ∧ operand "1ff" = .error .malformed ∧
    operand "0X1ff" = .ok 511 ∧ byte "0X1ff" = .ok 255 ∧ (255 : UInt8).toNat = 511 % 256 := by
  have hmarked : Text.MarkedHex (String.toList "0X1ff") ['1', 'f', 'f'] :=
    ⟨Or.inr (by decide), by decide⟩
  have hletter : IsHexLetter "f" := ⟨'f', by decide, Or.inl (by decide)⟩
  have hthree : ¬ IsHexLetter "1ff" := by
    rintro ⟨c, hc, -⟩
    simp at hc
  have hwhole : ∀ t : Token, (t.toList.all fun c => !Text.isBlank c) = true →
      ∀ c ∈ t.toList, Text.isBlank c = false := by simp
  have hoperand : operand "0X1ff" = .ok 511 := by decide
  have hbyte : byte "0X1ff" = .ok 255 := by decide
  refine ⟨?_, ?_, ?_, ?_, hoperand, hbyte, ?_⟩
  · obtain ⟨b, hb, hline⟩ := (readings_agree "7F").1 (by decide)
    exact ⟨b, hb, hline _ _ ["3"] _ (by cbv)⟩
  · exact ((readings_agree "0X1ff").2 (hwhole _ (by decide))).1.2 ⟨_, hmarked, by decide⟩
  · intro hbad
    exact (((readings_agree "f").2 (hwhole _ (by decide))).2.1.1 hbad).2 hletter
  · exact ((readings_agree "1ff").2 (hwhole _ (by decide))).2.1.2 ⟨by decide, hthree⟩
  · exact ((readings_agree "0X1ff").2 (hwhole _ (by decide))).2.2 511 255 hoperand hbyte

end Token

end NibbleAsm
