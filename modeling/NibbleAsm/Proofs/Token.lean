import NibbleAsm.Proofs.Numeral
import NibbleAsm.Proofs.Words

/-! What tokens stand for. `Denotes` gives the rules for operands without a bound on the number, and
`operand` follows them up to the width of a word. A literal byte always stands for a byte, the low
bits of its `literalValue`. -/

namespace NibbleAsm.Token

/-- The rules for operands: a mark and digits of base sixteen, digits of base ten, or one or two
digits of base sixteen with a letter among them. -/
def Denotes (t : Token) (v : ℕ) : Prop :=
  ∃ radix ds, Numeral.Spelling (fun n => n == 1 || n == 2) t.toList radix ds ∧
    v = positional radix ds

theorem denotes_iff {t : Token} {v : ℕ} :
    t.Denotes v ↔
      ∃ n, Numeral.read? (fun n => n == 1 || n == 2) t.toList = some n ∧ n.value = v := by
  constructor
  · rintro ⟨radix, ds, hs, rfl⟩
    refine ⟨⟨radix, ds.filterMap digitValue?⟩, ?_, Numeral.value_eq_ofDigits _⟩
    exact Numeral.read?_eq_some_iff.2 ⟨ds, hs, rfl⟩
  · rintro ⟨n, hn, rfl⟩
    obtain ⟨ds, hs, hds⟩ := Numeral.read?_eq_some_iff.1 hn
    exact ⟨n.radix, ds, hs, by rw [Numeral.value_eq_ofDigits, hds, positional]⟩

theorem operand_of_denotes {t : Token} {v : ℕ} (h : t.Denotes v) :
    t.operand = if v < Numeral.wordBound then .ok v else .error .tooLarge := by
  obtain ⟨n, hn, rfl⟩ := denotes_iff.1 h
  have hr : 0 < n.radix := by
    obtain ⟨ds, hs, -⟩ := Numeral.read?_eq_some_iff.1 hn
    exact hs.radix_pos
  rw [operand, hn]
  simp only [Numeral.word?_eq hr]
  by_cases hv : n.value < Numeral.wordBound
  · simp only [if_pos hv]
  · simp only [if_neg hv]

theorem operand_of_not_denotes {t : Token} (h : ∀ v, ¬ t.Denotes v) :
    t.operand = .error .malformed := by
  rw [operand]
  cases hn : Numeral.read? (fun n => n == 1 || n == 2) t.toList with
  | none => rfl
  | some n => exact absurd (denotes_iff.2 ⟨n, hn, rfl⟩) (h n.value)

def dropMark : List Char → List Char
  | '0' :: 'x' :: s => s
  | '0' :: 'X' :: s => s
  | s => s

/-- The number a literal byte spells: in base ten if it is digits of base ten alone, and in base
sixteen otherwise. -/
def literalValue (t : Token) : ℕ :=
  if isDecimal t.toList then positional 10 t.toList else positional 16 (dropMark t.toList)

theorem isDecimal_iff {s : List Char} :
    isDecimal s = true ↔ s ≠ [] ∧ ∀ c ∈ s, isDigitIn 10 c = true := by
  simp [isDecimal]

theorem isHexPair_iff {s : List Char} :
    isHexPair s = true ↔ s.length = 2 ∧ ∀ c ∈ s, isDigitIn 16 c = true := by
  simp [isHexPair]

theorem dropMark_of_marked {mark : Char} (hmark : Numeral.IsMark mark) (s : List Char) :
    dropMark ('0' :: mark :: s) = s := by
  rcases hmark with rfl | rfl <;> rfl

theorem dropMark_of_unmarked {s : List Char} (h : Numeral.Unmarked s) : dropMark s = s := by
  unfold dropMark
  split
  · exact absurd (Or.inl rfl) (h _ _ rfl)
  · exact absurd (Or.inr rfl) (h _ _ rfl)
  · rfl

theorem isLiteralByte_of_marked {t : Token} {mark : Char} {s : List Char}
    (hmark : Numeral.IsMark mark) (ht : t.toList = '0' :: mark :: s) :
    t.isLiteralByte = isHexPair s := by
  rw [isLiteralByte, ht]
  rcases hmark with rfl | rfl <;> rfl

theorem isLiteralByte_of_unmarked {t : Token} (h : Numeral.Unmarked t.toList) :
    t.isLiteralByte = (isHexPair t.toList || isDecimal t.toList) := by
  unfold isLiteralByte
  split
  next s hs => exact absurd (Or.inl rfl) (h _ _ hs)
  next s hs => exact absurd (Or.inr rfl) (h _ _ hs)
  next s hx hX => rfl

theorem spelling_of_isLiteralByte {t : Token} (h : t.isLiteralByte = true) :
    ∃ radix ds, Numeral.Spelling (· == 2) t.toList radix ds := by
  rcases Numeral.marked_or_unmarked t.toList with ⟨mark, s, hmark, ht⟩ | hs
  · rw [isLiteralByte_of_marked hmark ht] at h
    obtain ⟨hlen, hs⟩ := isHexPair_iff.1 h
    exact ⟨16, s, ht ▸ .marked hmark (by rintro rfl; simp at hlen) hs⟩
  · rw [isLiteralByte_of_unmarked hs, Bool.or_eq_true] at h
    by_cases hdec : isDecimal t.toList = true
    · obtain ⟨hne, hds⟩ := isDecimal_iff.1 hdec
      exact ⟨10, t.toList, .decimal hne hds⟩
    · obtain ⟨hlen, hds⟩ := isHexPair_iff.1 (h.resolve_right hdec)
      have hne : t.toList ≠ [] := by
        intro hnil
        simp [hnil] at hlen
      refine ⟨16, t.toList, .hex (by simp [hlen]) hds ?_⟩
      by_contra hletter
      exact hdec (isDecimal_iff.2 ⟨hne, by simpa using hletter⟩)

theorem positional_eq_literalValue {bare : ℕ → Bool} {t : Token} {radix : ℕ} {ds : List Char}
    (h : Numeral.Spelling bare t.toList radix ds) : positional radix ds = t.literalValue := by
  unfold literalValue
  generalize t.toList = s at h
  cases h with
  | @marked mark ds hmark hne hds =>
    have hdec : ¬ isDecimal ('0' :: mark :: ds) = true := by
      intro hdec
      exact Numeral.unmarked_of_digits (isDecimal_iff.1 hdec).2 mark ds rfl hmark
    rw [if_neg hdec, dropMark_of_marked hmark]
  | decimal hne hds => rw [if_pos (isDecimal_iff.2 ⟨hne, hds⟩)]
  | @hex ds hlen hds hletter =>
    obtain ⟨c, hc, hletter⟩ := hletter
    have hdec : ¬ isDecimal ds = true := by
      intro hdec
      rw [(isDecimal_iff.1 hdec).2 c hc] at hletter
      exact Bool.noConfusion hletter
    rw [if_neg hdec, dropMark_of_unmarked (Numeral.unmarked_of_digits hds)]

theorem not_isBlank_of_isDigitIn {radix : ℕ} {c : Char} (h : isDigitIn radix c = true) :
    Text.isBlank c = false := by
  have hdigit : '0'.toNat ≤ c.toNat ∧ c.toNat ≤ 'f'.toNat := by
    rw [isDigitIn, digitValue?] at h
    split_ifs at h with hdecimal hlower hupper
    · exact ⟨hdecimal.1, le_trans hdecimal.2 (by decide)⟩
    · exact ⟨le_trans (by decide) hlower.1, hlower.2⟩
    · exact ⟨le_trans (by decide) hupper.1, le_trans hupper.2 (by decide)⟩
    · cases h
  have hranges : ∀ r ∈ Text.blanks.ranges, r.2 < '0'.toNat ∨ 'f'.toNat < r.1 := by decide
  by_contra hblank
  obtain ⟨r, hr, hlo, hhi⟩ := Text.CharSet.contains_iff.1 (Bool.of_not_eq_false hblank)
  have := hranges r hr
  omega

theorem not_isBlank_of_spelling {bare : ℕ → Bool} {s ds : List Char} {radix : ℕ}
    (h : Numeral.Spelling bare s radix ds) : ∀ c ∈ s, Text.isBlank c = false := by
  cases h with
  | marked hmark hne hds =>
    intro c hc
    rcases List.mem_cons.1 hc with rfl | hc
    · rfl
    rcases List.mem_cons.1 hc with rfl | hc
    · rcases hmark with rfl | rfl <;> rfl
    · exact not_isBlank_of_isDigitIn (hds c hc)
  | decimal hne hds => exact fun c hc => not_isBlank_of_isDigitIn (hds c hc)
  | hex hlen hds hletter => exact fun c hc => not_isBlank_of_isDigitIn (hds c hc)

theorem byte_eq_ok_iff {t : Token} {b : UInt8} :
    t.byte = .ok b ↔
      ∃ radix ds, Numeral.Spelling (· == 2) (Text.trim Text.isBlank t.toList) radix ds ∧
        b = UInt8.ofNat (positional radix ds) := by
  constructor
  · intro h
    rw [byte] at h
    cases hn : Numeral.read? (· == 2) (Text.trim Text.isBlank t.toList) with
    | none =>
      rw [hn] at h
      cases h
    | some n =>
      rw [hn] at h
      obtain rfl := Except.ok.inj h
      obtain ⟨ds, hs, hds⟩ := Numeral.read?_eq_some_iff.1 hn
      exact ⟨n.radix, ds, hs, by rw [n.lowByte_eq, n.value_eq_ofDigits, hds, positional]⟩
  · rintro ⟨radix, ds, hs, rfl⟩
    have hn : Numeral.read? (· == 2) (Text.trim Text.isBlank t.toList) =
        some ⟨radix, ds.filterMap digitValue?⟩ := Numeral.read?_eq_some_iff.2 ⟨ds, hs, rfl⟩
    rw [byte, hn, positional, ← Numeral.value_eq_ofDigits ⟨radix, _⟩, ← Numeral.lowByte_eq]

theorem byte_ok_or_malformed (t : Token) :
    (∃ b, t.byte = .ok b) ∨ t.byte = .error .malformed := by
  unfold byte
  split
  · exact Or.inr rfl
  · exact Or.inl ⟨_, rfl⟩

theorem byte_eq_malformed_iff {t : Token} :
    t.byte = .error .malformed ↔ ¬ ∃ b, t.byte = .ok b := by
  constructor
  · rintro h ⟨b, hb⟩
    cases h.symm.trans hb
  · exact t.byte_ok_or_malformed.resolve_left

/-- A literal byte stands for the low bits of the number it spells. -/
theorem byte_of_isLiteralByte {t : Token} (h : t.isLiteralByte = true) :
    t.byte = .ok (UInt8.ofNat t.literalValue) := by
  obtain ⟨radix, ds, hs⟩ := spelling_of_isLiteralByte h
  refine byte_eq_ok_iff.2 ⟨radix, ds, ?_, by rw [positional_eq_literalValue hs]⟩
  rwa [Text.trim_of_no_sep (not_isBlank_of_spelling hs)]

end NibbleAsm.Token
