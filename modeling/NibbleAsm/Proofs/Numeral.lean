import Mathlib.Data.List.Basic
import Mathlib.Data.Nat.Digits.Defs
import NibbleAsm.Numeral

/-! Numerals and the texts that spell them. The three readings of a numeral agree with its value by
position: `value` is it, `lowByte` is it modulo a byte, and `word?` is it below `wordBound`. A text
is read just when it is one of the three spellings (`read?_eq_some_iff`). -/

namespace NibbleAsm

/-- The number that a text of digits stands for by position, the last digit counting units. -/
def positional (radix : ℕ) (s : List Char) : ℕ :=
  Nat.ofDigits radix (s.filterMap digitValue?).reverse

theorem positional_concat {radix d : ℕ} {c : Char} (hc : digitValue? c = some d) (s : List Char) :
    positional radix (s ++ [c]) = positional radix s * radix + d := by
  rw [positional, List.filterMap_append, List.filterMap_cons_some hc, List.filterMap_nil,
    List.reverse_append, List.reverse_singleton, Nat.ofDigits_append, Nat.ofDigits_singleton,
    List.length_singleton, pow_one, positional]
  ring

theorem positional_zeros_append (radix zeros : ℕ) (s : List Char) :
    positional radix (List.replicate zeros '0' ++ s) = positional radix s := by
  induction zeros with
  | zero => rfl
  | succ zeros ih =>
    have hzero : digitValue? '0' = some 0 := by decide
    rw [List.replicate_succ, List.cons_append, positional, List.filterMap_cons_some hzero,
      List.reverse_cons, Nat.ofDigits_append_zero, ← positional, ih]

theorem digitValue?_digitChar {d : ℕ} (hd : d < 16) : digitValue? d.digitChar = some d := by
  revert d
  decide

/-- Writing a number out and reading the digits by position gives it back. -/
theorem positional_toDigits {radix : ℕ} (h : 1 < radix) (h' : radix ≤ 16) (v : ℕ) :
    positional radix (Nat.toDigits radix v) = v := by
  induction v using Nat.base_induction radix h with
  | single d hd =>
    have hvalue : digitValue? d.digitChar = some d := digitValue?_digitChar (by omega)
    rw [Nat.toDigits_of_lt_base hd, positional, List.filterMap_cons_some hvalue, List.filterMap_nil,
      List.reverse_singleton, Nat.ofDigits_singleton]
  | digit v d hd hv ih =>
    rw [← Nat.toDigits_append_toDigits h hv hd, Nat.toDigits_of_lt_base hd,
      positional_concat (digitValue?_digitChar (by omega)), ih, Nat.mul_comm]

theorem exists_digitChar_of_mem_toDigits {radix : ℕ} (h : 1 < radix) {v : ℕ} {c : Char}
    (hc : c ∈ Nat.toDigits radix v) : ∃ d < radix, d.digitChar = c := by
  induction v using Nat.base_induction radix h with
  | single d hd =>
    rw [Nat.toDigits_of_lt_base hd, List.mem_singleton] at hc
    exact ⟨d, hd, hc.symm⟩
  | digit v d hd hv ih =>
    rw [← Nat.toDigits_append_toDigits h hv hd, Nat.toDigits_of_lt_base hd, List.mem_append,
      List.mem_singleton] at hc
    rcases hc with hc | hc
    · exact ih hc
    · exact ⟨d, hd, hc.symm⟩

theorem isDigitIn_of_mem_toDigits {radix : ℕ} (h : 1 < radix) (h' : radix ≤ 16) {v : ℕ} {c : Char}
    (hc : c ∈ Nat.toDigits radix v) : isDigitIn radix c = true := by
  obtain ⟨d, hd, rfl⟩ := exists_digitChar_of_mem_toDigits h hc
  rw [isDigitIn, digitValue?_digitChar (by omega)]
  simpa using hd

theorem isDigitIn_of_mem_zeros_append {radix : ℕ} (h : 0 < radix) (zeros : ℕ) {s : List Char}
    (hs : ∀ c ∈ s, isDigitIn radix c = true) :
    ∀ c ∈ List.replicate zeros '0' ++ s, isDigitIn radix c = true := by
  refine List.forall_mem_append.2 ⟨fun c hc => ?_, hs⟩
  have hzero : digitValue? '0' = some 0 := by decide
  rw [List.eq_of_mem_replicate hc, isDigitIn, hzero]
  simpa using h

theorem digitValue?_toUpper_of_mem_toDigits {v : ℕ} {c : Char} (hc : c ∈ Nat.toDigits 16 v) :
    digitValue? c.toUpper = digitValue? c := by
  have hdigit : ∀ d < 16, digitValue? d.digitChar.toUpper = digitValue? d.digitChar := by decide
  obtain ⟨d, hd, rfl⟩ := exists_digitChar_of_mem_toDigits (by decide) hc
  exact hdigit d hd

theorem positional_map_toUpper_toDigits (v : ℕ) :
    positional 16 ((Nat.toDigits 16 v).map Char.toUpper) = v := by
  have hsame : (Nat.toDigits 16 v).filterMap (digitValue? ∘ Char.toUpper) =
      (Nat.toDigits 16 v).filterMap digitValue? :=
    List.filterMap_congr fun c hc => digitValue?_toUpper_of_mem_toDigits hc
  rw [positional, List.filterMap_map, hsame, ← positional,
    positional_toDigits (by decide) (by decide)]

namespace Numeral

theorem foldl_value (radix : ℕ) (ds : List ℕ) (acc : ℕ) :
    ds.foldl (fun acc d => acc * radix + d) acc =
      acc * radix ^ ds.length + Nat.ofDigits radix ds.reverse := by
  induction ds generalizing acc with
  | nil => simp
  | cons d ds ih =>
    rw [List.foldl_cons, ih, List.reverse_cons, Nat.ofDigits_append, List.length_reverse,
      Nat.ofDigits_singleton, List.length_cons]
    ring

theorem value_eq_ofDigits (n : Numeral) : n.value = Nat.ofDigits n.radix n.digits.reverse := by
  rw [value, foldl_value, Nat.zero_mul, Nat.zero_add]

theorem foldl_lowByte (radix : ℕ) (ds : List ℕ) (acc : ℕ) :
    ds.foldl (fun acc d => acc * UInt8.ofNat radix + UInt8.ofNat d) (UInt8.ofNat acc) =
      UInt8.ofNat (ds.foldl (fun acc d => acc * radix + d) acc) := by
  induction ds generalizing acc with
  | nil => rfl
  | cons d ds ih => rw [List.foldl_cons, List.foldl_cons, ← ih, UInt8.ofNat_add, UInt8.ofNat_mul]

/-- Arithmetic that wraps at a byte gives the low bits of the value. -/
theorem lowByte_eq (n : Numeral) : n.lowByte = UInt8.ofNat n.value :=
  foldl_lowByte n.radix n.digits 0

/-- Once a value has left the words, more digits do not bring it back. -/
theorem le_foldl_value {radix : ℕ} (hr : 0 < radix) (ds : List ℕ) (acc : ℕ) :
    acc ≤ ds.foldl (fun acc d => acc * radix + d) acc := by
  rw [foldl_value]
  have := Nat.le_mul_of_pos_right acc (pow_pos hr ds.length)
  omega

theorem foldlM_word {radix : ℕ} (hr : 0 < radix) (ds : List ℕ) {acc : ℕ} (ha : acc < wordBound) :
    ds.foldlM (fun acc d => if acc * radix + d < wordBound then some (acc * radix + d) else none)
        acc =
      if ds.foldl (fun acc d => acc * radix + d) acc < wordBound then
        some (ds.foldl (fun acc d => acc * radix + d) acc)
      else none := by
  induction ds generalizing acc with
  | nil => rw [List.foldl_nil, if_pos ha]; rfl
  | cons d ds ih =>
    rw [List.foldlM_cons, List.foldl_cons]
    by_cases hd : acc * radix + d < wordBound
    · rw [if_pos hd]
      exact ih hd
    · have := le_foldl_value hr ds (acc * radix + d)
      rw [if_neg hd, if_neg (by omega)]
      rfl

theorem word?_eq {n : Numeral} (hr : 0 < n.radix) :
    n.word? = if n.value < wordBound then some n.value else none :=
  foldlM_word hr n.digits (by decide)

def IsMark (c : Char) : Prop :=
  c = 'x' ∨ c = 'X'

/-- `Spelling bare s radix ds`: the text `s` spells a number, by the digits `ds` in base `radix`. -/
inductive Spelling (bare : ℕ → Bool) : List Char → ℕ → List Char → Prop
  | marked {mark : Char} {ds : List Char} (hmark : IsMark mark) (hne : ds ≠ [])
      (hds : ∀ c ∈ ds, isDigitIn 16 c = true) : Spelling bare ('0' :: mark :: ds) 16 ds
  | decimal {ds : List Char} (hne : ds ≠ []) (hds : ∀ c ∈ ds, isDigitIn 10 c = true) :
      Spelling bare ds 10 ds
  | hex {ds : List Char} (hlen : bare ds.length = true) (hds : ∀ c ∈ ds, isDigitIn 16 c = true)
      (hletter : ∃ c ∈ ds, isDigitIn 10 c = false) : Spelling bare ds 16 ds

theorem Spelling.radix_pos {bare : ℕ → Bool} {s ds : List Char} {radix : ℕ}
    (h : Spelling bare s radix ds) : 0 < radix := by
  cases h <;> decide

theorem ofDigits?_eq_some_iff {radix : ℕ} {s : List Char} {n : Numeral} :
    ofDigits? radix s = some n ↔
      (s ≠ [] ∧ ∀ c ∈ s, isDigitIn radix c = true) ∧ n = ⟨radix, s.filterMap digitValue?⟩ := by
  rw [ofDigits?, Option.ite_none_right_eq_some, List.all_eq_true, Option.some_inj, eq_comm (a := n)]

theorem ofDigits?_eq_none_iff {radix : ℕ} {s : List Char} :
    ofDigits? radix s = none ↔ s = [] ∨ ∃ c ∈ s, isDigitIn radix c = false := by
  rw [ofDigits?, ite_eq_right_iff]
  simp [or_iff_not_imp_left]

def Unmarked (s : List Char) : Prop :=
  ∀ mark ds, s = '0' :: mark :: ds → ¬ IsMark mark

theorem marked_or_unmarked (s : List Char) :
    (∃ mark ds, IsMark mark ∧ s = '0' :: mark :: ds) ∨ Unmarked s := by
  by_cases h : ∃ mark ds, IsMark mark ∧ s = '0' :: mark :: ds
  · exact Or.inl h
  · exact Or.inr fun mark ds hs hmark => h ⟨mark, ds, hmark, hs⟩

theorem IsMark.not_digit {mark : Char} (h : IsMark mark) (radix : ℕ) :
    isDigitIn radix mark = false := by
  rcases h with rfl | rfl <;> rfl

theorem unmarked_of_digits {radix : ℕ} {s : List Char}
    (hs : ∀ c ∈ s, isDigitIn radix c = true) : Unmarked s := by
  rintro mark ds rfl hmark
  have hdigit : isDigitIn radix mark = true := hs mark (by simp)
  rw [hmark.not_digit] at hdigit
  exact Bool.noConfusion hdigit

theorem read?_of_marked {bare : ℕ → Bool} {mark : Char} (hmark : IsMark mark) (s : List Char) :
    read? bare ('0' :: mark :: s) = ofDigits? 16 s := by
  rcases hmark with rfl | rfl <;> rfl

theorem read?_of_unmarked {bare : ℕ → Bool} {s : List Char} (h : Unmarked s) :
    read? bare s = (ofDigits? 10 s).or (if bare s.length then ofDigits? 16 s else none) := by
  unfold read?
  split
  · exact absurd (Or.inl rfl) (h _ _ rfl)
  · exact absurd (Or.inr rfl) (h _ _ rfl)
  · rfl

theorem read?_eq_some_iff {bare : ℕ → Bool} {s : List Char} {n : Numeral} :
    read? bare s = some n ↔
      ∃ ds, Spelling bare s n.radix ds ∧ n.digits = ds.filterMap digitValue? := by
  constructor
  · intro h
    rcases marked_or_unmarked s with ⟨mark, ds, hmark, rfl⟩ | hs
    · rw [read?_of_marked hmark] at h
      obtain ⟨⟨hne, hds⟩, rfl⟩ := ofDigits?_eq_some_iff.1 h
      exact ⟨ds, .marked hmark hne hds, rfl⟩
    · rw [read?_of_unmarked hs, Option.or_eq_some_iff] at h
      rcases h with h | ⟨hnone, h⟩
      · obtain ⟨⟨hne, hds⟩, rfl⟩ := ofDigits?_eq_some_iff.1 h
        exact ⟨s, .decimal hne hds, rfl⟩
      · rw [Option.ite_none_right_eq_some] at h
        obtain ⟨hlen, h⟩ := h
        obtain ⟨⟨hne, hds⟩, rfl⟩ := ofDigits?_eq_some_iff.1 h
        exact ⟨s, .hex hlen hds ((ofDigits?_eq_none_iff.1 hnone).resolve_left hne), rfl⟩
  · rintro ⟨ds, hs, hdigits⟩
    obtain ⟨radix, digits⟩ := n
    subst hdigits
    cases hs with
    | marked hmark hne hds =>
      rw [read?_of_marked hmark]
      exact ofDigits?_eq_some_iff.2 ⟨⟨hne, hds⟩, rfl⟩
    | decimal hne hds =>
      rw [read?_of_unmarked (unmarked_of_digits hds), ofDigits?_eq_some_iff.2 ⟨⟨hne, hds⟩, rfl⟩]
      rfl
    | hex hlen hds hletter =>
      have hne : s ≠ [] := by
        rintro rfl
        simp at hletter
      rw [read?_of_unmarked (unmarked_of_digits hds),
        ofDigits?_eq_none_iff.2 (Or.inr hletter), Option.none_or, if_pos hlen]
      exact ofDigits?_eq_some_iff.2 ⟨⟨hne, hds⟩, rfl⟩

end Numeral

end NibbleAsm
