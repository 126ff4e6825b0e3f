import Mathlib
import NibbleAsm.Proofs.Token

/-! The numbers that tokens stand for, told from their characters alone. There are three spellings;
an operand is its number as long as that fits in a word, however many digits it has, and a byte is
the low bits of a number of any length. -/

namespace NibbleAsm

theorem isDigitIn_ten_iff {c : Char} : isDigitIn 10 c = true ↔ '0' ≤ c ∧ c ≤ '9' := by
  unfold isDigitIn digitValue?
  split_ifs with hdecimal hlower hupper
  · have hhi : c.toNat ≤ 57 := hdecimal.2
    have hvalue : c.toNat - 48 < 10 := by omega
    simp [hdecimal, hvalue]
  · simp [hdecimal]
  · simp [hdecimal]
  · simp [hdecimal]

theorem isDigitIn_sixteen_iff {c : Char} :
    isDigitIn 16 c = true ↔ ('0' ≤ c ∧ c ≤ '9') ∨ ('a' ≤ c ∧ c ≤ 'f') ∨ ('A' ≤ c ∧ c ≤ 'F') := by
  unfold isDigitIn digitValue?
  split_ifs with hdecimal hlower hupper
  · have hhi : c.toNat ≤ 57 := hdecimal.2
    have hvalue : c.toNat - 48 < 16 := by omega
    simp [hdecimal, hvalue]
  · have hhi : c.toNat ≤ 102 := hlower.2
    have hvalue : c.toNat - 97 + 10 < 16 := by omega
    simp only [Option.any_some, hlower]
    simp [hvalue]
  · have hhi : c.toNat ≤ 70 := hupper.2
    have hvalue : c.toNat - 65 + 10 < 16 := by omega
    simp only [Option.any_some, hupper]
    simp [hvalue]
  · simp only [hdecimal, hlower, hupper]
    simp

namespace Text

def DecimalDigits (s : List Char) : Prop :=
  s ≠ [] ∧ ∀ c ∈ s, '0' ≤ c ∧ c ≤ '9'

def HexDigits (s : List Char) : Prop :=
  s ≠ [] ∧ ∀ c ∈ s, ('0' ≤ c ∧ c ≤ '9') ∨ ('a' ≤ c ∧ c ≤ 'f') ∨ ('A' ≤ c ∧ c ≤ 'F')

/-- The text is `0x` or `0X` and the digits `ds` of base sixteen. -/
def MarkedHex (s ds : List Char) : Prop :=
  (s = '0' :: 'x' :: ds ∨ s = '0' :: 'X' :: ds) ∧ HexDigits ds

theorem decimalDigits_iff {s : List Char} :
    DecimalDigits s ↔ s ≠ [] ∧ ∀ c ∈ s, isDigitIn 10 c = true := by
  simp only [DecimalDigits, isDigitIn_ten_iff]

theorem hexDigits_iff {s : List Char} :
    HexDigits s ↔ s ≠ [] ∧ ∀ c ∈ s, isDigitIn 16 c = true := by
  simp only [HexDigits, isDigitIn_sixteen_iff]

instance (s : List Char) : Decidable (DecimalDigits s) :=
  decidable_of_iff (s ≠ [] ∧ s.all (isDigitIn 10) = true) (by simp [decimalDigits_iff])

instance (s : List Char) : Decidable (HexDigits s) :=
  decidable_of_iff (s ≠ [] ∧ s.all (isDigitIn 16) = true) (by simp [hexDigits_iff])

theorem decimalDigits_zeros_append (zeros n : ℕ) :
    DecimalDigits (List.replicate zeros '0' ++ Nat.toDigits 10 n) := by
  refine decimalDigits_iff.2 ⟨by simp [Nat.toDigits_ne_nil], ?_⟩
  refine isDigitIn_of_mem_zeros_append (by decide) zeros fun c hc => ?_
  exact isDigitIn_of_mem_toDigits (by decide) (by decide) hc

/-- The numeral of `n` in base sixteen, in small letters or in capitals. -/
def HexNumeral (n : ℕ) (ds : List Char) : Prop :=
  ds = Nat.toDigits 16 n ∨ ds = (Nat.toDigits 16 n).map Char.toUpper

theorem HexNumeral.positional_eq {n : ℕ} {ds : List Char} (h : HexNumeral n ds) :
    positional 16 ds = n := by
  rcases h with rfl | rfl
  · exact positional_toDigits (by decide) (by decide) n
  · exact positional_map_toUpper_toDigits n

theorem HexNumeral.hexDigits_zeros_append {n : ℕ} {ds : List Char} (h : HexNumeral n ds)
    (zeros : ℕ) : HexDigits (List.replicate zeros '0' ++ ds) := by
  have hdigits : ∀ c ∈ Nat.toDigits 16 n, isDigitIn 16 c = true := fun c hc =>
    isDigitIn_of_mem_toDigits (by decide) (by decide) hc
  rcases h with rfl | rfl
  · refine hexDigits_iff.2 ⟨by simp [Nat.toDigits_ne_nil], ?_⟩
    exact isDigitIn_of_mem_zeros_append (by decide) zeros hdigits
  · refine hexDigits_iff.2 ⟨by simp [Nat.toDigits_ne_nil], ?_⟩
    refine isDigitIn_of_mem_zeros_append (by decide) zeros fun c hc => ?_
    obtain ⟨d, hd, rfl⟩ := List.mem_map.1 hc
    rw [isDigitIn, digitValue?_toUpper_of_mem_toDigits hd]
    exact hdigits d hd

end Text

namespace Numeral

variable {bare : ℕ → Bool} {s ds : List Char}

theorem spelling_of_marked (h : Text.MarkedHex s ds) : Spelling bare s 16 ds := by
  obtain ⟨hs, hds⟩ := h
  obtain ⟨hne, hdigits⟩ := Text.hexDigits_iff.1 hds
  rcases hs with rfl | rfl
  · exact .marked (Or.inl rfl) hne hdigits
  · exact .marked (Or.inr rfl) hne hdigits

theorem spelling_of_decimal (h : Text.DecimalDigits s) : Spelling bare s 10 s := by
  obtain ⟨hne, hdigits⟩ := Text.decimalDigits_iff.1 h
  exact .decimal hne hdigits

theorem spelling_of_bare (h : Text.HexDigits s) (hlen : bare s.length = true)
    (hletter : ¬ Text.DecimalDigits s) : Spelling bare s 16 s := by
  obtain ⟨hne, hdigits⟩ := Text.hexDigits_iff.1 h
  refine .hex hlen hdigits ?_
  by_contra hnone
  exact hletter (Text.decimalDigits_iff.2 ⟨hne, by simpa using hnone⟩)

/-- A spelling is one of three, and which one it is can be told from the text. -/
theorem Spelling.cases {radix : ℕ} (h : Spelling bare s radix ds) :
    Text.MarkedHex s ds ∨ Text.DecimalDigits s ∨ Text.HexDigits s ∧ bare s.length = true := by
  cases h with
  | marked hmark hne hds =>
    left
    refine ⟨?_, Text.hexDigits_iff.2 ⟨hne, hds⟩⟩
    rcases hmark with rfl | rfl
    · exact Or.inl rfl
    · exact Or.inr rfl
  | decimal hne hds => exact Or.inr (Or.inl (Text.decimalDigits_iff.2 ⟨hne, hds⟩))
  | hex hlen hds hletter =>
    obtain ⟨c, hc, -⟩ := hletter
    exact Or.inr (Or.inr ⟨Text.hexDigits_iff.2 ⟨List.ne_nil_of_mem hc, hds⟩, hlen⟩)

end Numeral

namespace Token

/-- The number, if it fits in sixty-four bits. -/
def inWord (n : ℕ) : Except NumberError ℕ :=
  if n < 2 ^ 64 then .ok n else .error .tooLarge

theorem operand_of_spelling {t : Token} {radix : ℕ} {ds : List Char}
    (h : Numeral.Spelling (fun n => n == 1 || n == 2) t.toList radix ds) :
    t.operand = inWord (positional radix ds) :=
  operand_of_denotes ⟨radix, ds, h, rfl⟩

theorem operand_of_marked {t : Token} {ds : List Char} (h : Text.MarkedHex t.toList ds) :
    t.operand = inWord (positional 16 ds) :=
  operand_of_spelling (Numeral.spelling_of_marked h)

theorem operand_of_decimal {t : Token} (h : Text.DecimalDigits t.toList) :
    t.operand = inWord (positional 10 t.toList) :=
  operand_of_spelling (Numeral.spelling_of_decimal h)

theorem operand_of_bare {t : Token} (h : Text.HexDigits t.toList) (hlen : t.toList.length ≤ 2)
    (hletter : ¬ Text.DecimalDigits t.toList) : t.operand = inWord (positional 16 t.toList) := by
  have hpos : t.toList.length ≠ 0 := by simpa using h.1
  refine operand_of_spelling (Numeral.spelling_of_bare h ?_ hletter)
  simp only [Bool.or_eq_true, beq_iff_eq]
  omega

theorem inWord_ne_malformed (n : ℕ) : inWord n ≠ .error .malformed := by
  unfold inWord
  split_ifs <;> simp

theorem operand_eq_malformed_iff {t : Token} :
    t.operand = .error .malformed ↔ ¬ ((∃ ds, Text.MarkedHex t.toList ds) ∨
      (Text.HexDigits t.toList ∧ t.toList.length ≤ 2 ∧ ¬ Text.DecimalDigits t.toList) ∨
      Text.DecimalDigits t.toList) := by
  constructor
  · rintro hbad (⟨ds, h⟩ | ⟨hhex, hlen, hletter⟩ | h)
    · exact inWord_ne_malformed _ ((operand_of_marked h).symm.trans hbad)
    · exact inWord_ne_malformed _ ((operand_of_bare hhex hlen hletter).symm.trans hbad)
    · exact inWord_ne_malformed _ ((operand_of_decimal h).symm.trans hbad)
  · intro hnone
    apply operand_of_not_denotes
    rintro v ⟨radix, ds, hs, -⟩
    apply hnone
    by_cases hdec : Text.DecimalDigits t.toList
    · exact Or.inr (Or.inr hdec)
    · rcases hs.cases with h | h | ⟨h, hlen⟩
      · exact Or.inl ⟨ds, h⟩
      · exact absurd h hdec
      · simp only [Bool.or_eq_true, beq_iff_eq] at hlen
        exact Or.inr (Or.inl ⟨h, by omega, hdec⟩)

theorem operand_decimal_numeral {n : ℕ} (hn : n < 2 ^ 64) (zeros : ℕ) :
    operand (String.ofList (List.replicate zeros '0' ++ Nat.toDigits 10 n)) = .ok n := by
  have hdigits := Text.decimalDigits_zeros_append zeros n
  rw [← String.toList_ofList (l := List.replicate zeros '0' ++ Nat.toDigits 10 n)] at hdigits
  rw [operand_of_decimal hdigits, String.toList_ofList, positional_zeros_append,
    positional_toDigits (by decide) (by decide), inWord, if_pos hn]

theorem operand_hex_numeral {n : ℕ} (hn : n < 2 ^ 64) (zeros : ℕ) {mark : Char} {ds : List Char}
    (hmark : mark = 'x' ∨ mark = 'X') (hds : Text.HexNumeral n ds) :
    operand (String.ofList ('0' :: mark :: (List.replicate zeros '0' ++ ds))) = .ok n := by
  have hmarked : Text.MarkedHex
      (String.ofList ('0' :: mark :: (List.replicate zeros '0' ++ ds))).toList
      (List.replicate zeros '0' ++ ds) := by
    refine ⟨?_, hds.hexDigits_zeros_append zeros⟩
    rw [String.toList_ofList]
    rcases hmark with rfl | rfl
    · exact Or.inl rfl
    · exact Or.inr rfl
  rw [operand_of_marked hmarked, positional_zeros_append, hds.positional_eq, inWord, if_pos hn]

/-- What an operand stands for, by its spelling: the number if it fits in a word, and else it is too
large; any other text is malformed. So every number below the bound is read from its numeral, in
base ten or in base sixteen with either mark and in either case, whatever zeros stand in front. -/
theorem operand_exact :
    (∀ t : Token,
      (∀ ds, Text.MarkedHex t.toList ds → t.operand = inWord (positional 16 ds)) ∧
      (Text.HexDigits t.toList ∧ t.toList.length ≤ 2 ∧ ¬ Text.DecimalDigits t.toList →
        t.operand = inWord (positional 16 t.toList)) ∧
      (Text.DecimalDigits t.toList → t.operand = inWord (positional 10 t.toList)) ∧
      (t.operand = .error .malformed ↔ ¬ ((∃ ds, Text.MarkedHex t.toList ds) ∨
        (Text.HexDigits t.toList ∧ t.toList.length ≤ 2 ∧ ¬ Text.DecimalDigits t.toList) ∨
        Text.DecimalDigits t.toList))) ∧
    ∀ n < 2 ^ 64, ∀ zeros : ℕ,
      operand (String.ofList (List.replicate zeros '0' ++ Nat.toDigits 10 n)) = .ok n ∧
      ∀ mark ds, mark = 'x' ∨ mark = 'X' → Text.HexNumeral n ds →
        operand (String.ofList ('0' :: mark :: (List.replicate zeros '0' ++ ds))) = .ok n := by
  constructor
  · intro t
    refine ⟨fun ds => operand_of_marked, ?_, operand_of_decimal, operand_eq_malformed_iff⟩
    rintro ⟨hhex, hlen, hletter⟩
    exact operand_of_bare hhex hlen hletter
  · intro n hn zeros
    refine ⟨operand_decimal_numeral hn zeros, ?_⟩
    intro mark ds hmark hds
    exact operand_hex_numeral hn zeros hmark hds

/-- The largest number that fits, behind zeros, and the one after it; two digits with a letter, and
three. -/
theorem operand_exact_bound :
    operand "0X000FFFFFFFFFFFFFFFF" = .ok 18446744073709551615 ∧
    operand "00018446744073709551616" = .error .tooLarge ∧
    operand "1a" = .ok 26 ∧ operand "1a0" = .error .malformed := by
  refine ⟨?_, ?_, ?_, ?_⟩
  · exact (operand_exact.2 18446744073709551615 (by decide) 3).2 'X' _ (Or.inr rfl) (Or.inr rfl)
  · exact (operand_exact.1 "00018446744073709551616").2.2.1 (by decide)
  · exact (operand_exact.1 "1a").2.1 (by decide)
  · refine (operand_exact.1 "1a0").2.2.2.2 ?_
    rintro (⟨ds, hmarked, -⟩ | h)
    · simp at hmarked
    · revert h
      decide

def stripped (t : Token) : List Char :=
  Text.trim Text.isBlank t.toList

theorem exists_byte_iff {t : Token} :
    (∃ b, t.byte = .ok b) ↔ (∃ ds, Text.MarkedHex t.stripped ds) ∨
      Text.DecimalDigits t.stripped ∨ Text.HexDigits t.stripped ∧ t.stripped.length = 2 := by
  constructor
  · rintro ⟨b, hb⟩
    obtain ⟨radix, ds, hs, -⟩ := byte_eq_ok_iff.1 hb
    rcases hs.cases with h | h | ⟨h, hlen⟩
    · exact Or.inl ⟨ds, h⟩
    · exact Or.inr (Or.inl h)
    · exact Or.inr (Or.inr ⟨h, by simpa [stripped] using hlen⟩)
  · intro h
    by_cases hdec : Text.DecimalDigits t.stripped
    · exact ⟨_, byte_eq_ok_iff.2 ⟨10, _, Numeral.spelling_of_decimal hdec, rfl⟩⟩
    · rcases h with ⟨ds, h⟩ | h | ⟨h, hlen⟩
      · exact ⟨_, byte_eq_ok_iff.2 ⟨16, ds, Numeral.spelling_of_marked h, rfl⟩⟩
      · exact absurd h hdec
      · have hspelling : Numeral.Spelling (· == 2) t.stripped 16 t.stripped :=
          Numeral.spelling_of_bare h (by simp [hlen]) hdec
        exact ⟨_, byte_eq_ok_iff.2 ⟨16, _, hspelling, rfl⟩⟩

theorem toNat_of_byte {t : Token} {b : UInt8} (h : t.byte = .ok b) :
    b.toNat = (if Text.DecimalDigits t.stripped then positional 10 t.stripped
      else positional 16 (dropMark t.stripped)) % 256 := by
  obtain ⟨radix, ds, hs, rfl⟩ := byte_eq_ok_iff.1 h
  have hvalue := positional_eq_literalValue (t := String.ofList t.stripped)
    (by simpa [stripped] using hs)
  simp only [literalValue, String.toList_ofList, isDecimal_iff, ← Text.decimalDigits_iff] at hvalue
  rw [UInt8.toNat_ofNat', hvalue]

/-- A token stands for a byte just if it has one of three spellings once the blanks around it are
taken off, and any other token is malformed; none is too large. The byte is the number modulo 256,
however many digits there are: in base ten if the text is digits of base ten alone, and else in base
sixteen by the digits after the mark. -/
theorem byte_exact (t : Token) :
    ((∃ b, t.byte = .ok b) ↔ (∃ ds, Text.MarkedHex t.stripped ds) ∨
      Text.DecimalDigits t.stripped ∨ Text.HexDigits t.stripped ∧ t.stripped.length = 2) ∧
    (∀ b, t.byte = .ok b →
      b.toNat = (if Text.DecimalDigits t.stripped then positional 10 t.stripped
        else positional 16 (dropMark t.stripped)) % 256) ∧
    (t.byte = .error .malformed ↔ ¬ ((∃ ds, Text.MarkedHex t.stripped ds) ∨
      Text.DecimalDigits t.stripped ∨ Text.HexDigits t.stripped ∧ t.stripped.length = 2)) ∧
    t.byte ≠ .error .tooLarge := by
  refine ⟨exists_byte_iff, fun _ => toNat_of_byte, ?_, ?_⟩
  · rw [byte_eq_malformed_iff, exists_byte_iff]
  · intro hlarge
    rcases t.byte_ok_or_malformed with ⟨b, hb⟩ | hb
    · cases hlarge.symm.trans hb
    · cases hlarge.symm.trans hb

/-- Nines of base ten behind a wide blank; three digits after a mark, and three without one. -/
theorem byte_exact_wide :
    (∃ b, byte "\u3000 99999999999999999999999999\t" = .ok b ∧
      b.toNat = 99999999999999999999999999 % 256) ∧
    (∃ b, byte "0X1a0" = .ok b ∧ b.toNat = 0x1A0 % 256) ∧
    byte "1a0" = .error .malformed := by
  refine ⟨?_, ?_, ?_⟩
  · obtain ⟨hbyte, hvalue, -⟩ := byte_exact "\u3000 99999999999999999999999999\t"
    obtain ⟨b, hb⟩ := hbyte.2 (Or.inr (Or.inl (by decide)))
    exact ⟨b, hb, (hvalue b hb).trans (by decide)⟩
  · obtain ⟨hbyte, hvalue, -⟩ := byte_exact "0X1a0"
    obtain ⟨b, hb⟩ := hbyte.2 (Or.inl ⟨['1', 'a', '0'], Or.inr (by decide), by decide⟩)
    exact ⟨b, hb, (hvalue b hb).trans (by decide)⟩
  · have hstripped : stripped "1a0" = ['1', 'a', '0'] := by decide
    refine (byte_exact "1a0").2.2.1.2 ?_
    rw [hstripped]
    rintro (⟨ds, hmarked, -⟩ | h)
    · simp at hmarked
    · revert h
      decide

end Token

end NibbleAsm
