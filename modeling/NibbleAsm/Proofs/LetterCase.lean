import Mathlib.Data.List.Forall2
import NibbleAsm.Proofs.Token
import NibbleAsm.Table

/-! The case of letters. Lowering a letter changes neither whether it is blank nor what digit it is,
so tokens that are the same name stand for the same things, and lines that are the same but for case
have the same tokens but for case. -/

namespace NibbleAsm.Text

def capital (i : ℕ) : Char :=
  Char.ofNat (65 + i)

theorem toLower_eq_self_or_capital (c : Char) : c.toLower = c ∨ ∃ i < 26, c = capital i := by
  by_cases h : c.val ≥ 'A'.val ∧ c.val ≤ 'Z'.val
  · right
    have hlo : 65 ≤ c.toNat := h.1
    have hhi : c.toNat ≤ 90 := h.2
    refine ⟨c.toNat - 65, by omega, ?_⟩
    rw [capital, Nat.add_sub_cancel' hlo, Char.ofNat_toNat]
  · exact Or.inl (dif_neg h)

/-- What holds of a letter as of its lower case needs to be looked at for capitals only. -/
theorem apply_toLower {α : Type} {g : Char → α}
    (h : ∀ i < 26, g (capital i).toLower = g (capital i)) (c : Char) : g c.toLower = g c := by
  rcases toLower_eq_self_or_capital c with hc | ⟨i, hi, rfl⟩
  · rw [hc]
  · exact h i hi

theorem isBlank_toLower (c : Char) : isBlank c.toLower = isBlank c :=
  apply_toLower (by decide) c

theorem digitValue?_toLower (c : Char) : digitValue? c.toLower = digitValue? c :=
  apply_toLower (by decide) c

theorem isDigitIn_toLower (radix : ℕ) (c : Char) :
    isDigitIn radix c.toLower = isDigitIn radix c := by
  rw [isDigitIn, digitValue?_toLower, isDigitIn]

theorem toLower_eq_zero_iff {c : Char} : c.toLower = '0' ↔ c = '0' :=
  decide_eq_decide.1 (apply_toLower (g := fun c => decide (c = '0')) (by decide) c)

theorem isMark_toLower {c : Char} : Numeral.IsMark c.toLower ↔ Numeral.IsMark c :=
  decide_eq_decide.1 (apply_toLower (g := fun c => decide (c = 'x' ∨ c = 'X')) (by decide) c)

end NibbleAsm.Text

namespace NibbleAsm.Token

theorem isHexPair_map_toLower (s : List Char) : isHexPair (s.map Char.toLower) = isHexPair s := by
  simp [isHexPair, Function.comp_def, Text.isDigitIn_toLower]

theorem isDecimal_map_toLower (s : List Char) : isDecimal (s.map Char.toLower) = isDecimal s := by
  simp [isDecimal, Function.comp_def, Text.isDigitIn_toLower]

theorem unmarked_map_toLower {s : List Char} (h : Numeral.Unmarked s) :
    Numeral.Unmarked (s.map Char.toLower) := by
  intro mark ds hs hmark
  obtain ⟨a, s, rfl, ha, hs⟩ := List.map_eq_cons_iff.1 hs
  obtain ⟨b, s, rfl, rfl, -⟩ := List.map_eq_cons_iff.1 hs
  exact h b s (by rw [Text.toLower_eq_zero_iff.1 ha]) (Text.isMark_toLower.1 hmark)

theorem isLiteralByte_toLower (t : Token) :
    isLiteralByte (String.ofList (Text.foldCase t)) = t.isLiteralByte := by
  have hfold : (String.ofList (Text.foldCase t)).toList = t.toList.map Char.toLower :=
    String.toList_ofList
  rcases Numeral.marked_or_unmarked t.toList with ⟨mark, s, hmark, ht⟩ | ht
  · have hfold' : (String.ofList (Text.foldCase t)).toList =
        '0' :: mark.toLower :: s.map Char.toLower := by rw [hfold, ht]; rfl
    rw [isLiteralByte_of_marked hmark ht,
      isLiteralByte_of_marked (Text.isMark_toLower.2 hmark) hfold', isHexPair_map_toLower]
  · rw [isLiteralByte_of_unmarked ht, isLiteralByte_of_unmarked (hfold ▸ unmarked_map_toLower ht),
      hfold, isHexPair_map_toLower, isDecimal_map_toLower]

theorem isLiteralByte_congr {s t : Token} (h : Text.sameName s t = true) :
    s.isLiteralByte = t.isLiteralByte := by
  rw [← isLiteralByte_toLower s, Text.sameName_iff.1 h, isLiteralByte_toLower]

end NibbleAsm.Token

namespace NibbleAsm

namespace Numeral

theorem ofDigits?_map_toLower (radix : ℕ) (s : List Char) :
    ofDigits? radix (s.map Char.toLower) = ofDigits? radix s := by
  simp [ofDigits?, Function.comp_def, Text.isDigitIn_toLower, Text.digitValue?_toLower,
    List.filterMap_map]

theorem read?_map_toLower (bare : ℕ → Bool) (s : List Char) :
    read? bare (s.map Char.toLower) = read? bare s := by
  rcases marked_or_unmarked s with ⟨mark, ds, hmark, rfl⟩ | hs
  · have hmap : ('0' :: mark :: ds).map Char.toLower =
        '0' :: mark.toLower :: ds.map Char.toLower := rfl
    rw [hmap, read?_of_marked hmark, read?_of_marked (Text.isMark_toLower.2 hmark),
      ofDigits?_map_toLower]
  · rw [read?_of_unmarked hs, read?_of_unmarked (Token.unmarked_map_toLower hs),
      ofDigits?_map_toLower, ofDigits?_map_toLower, List.length_map]

end Numeral

namespace Token

theorem byte_congr {s t : Token} (h : Text.sameName s t = true) : s.byte = t.byte := by
  have hfold : ∀ t : Token, Text.trim Text.isBlank (Text.foldCase t) =
      (Text.trim Text.isBlank t.toList).map Char.toLower :=
    fun t => Text.trim_map Text.isBlank_toLower t.toList
  rw [byte, byte, ← Numeral.read?_map_toLower, ← hfold, Text.sameName_iff.1 h, hfold,
    Numeral.read?_map_toLower]

theorem IsWord.of_sameName {s t : Token} (ht : t.IsWord) (h : Text.sameName s t = true) :
    s.IsWord := by
  have hfold : s.toList.map Char.toLower = t.toList.map Char.toLower := Text.sameName_iff.1 h
  refine ⟨fun hs => ?_, fun c hc => ?_⟩
  · rw [hs, List.map_nil, eq_comm, List.map_eq_nil_iff] at hfold
    exact ht.1 hfold
  · have hmem : c.toLower ∈ t.toList.map Char.toLower := hfold ▸ List.mem_map_of_mem hc
    obtain ⟨d, hd, hdc⟩ := List.mem_map.1 hmem
    rw [← Text.isBlank_toLower, ← hdc, Text.isBlank_toLower, ht.2 d hd]

theorem denotes_congr {s t : Token} (h : Text.sameName s t = true) (v : ℕ) :
    s.Denotes v ↔ t.Denotes v := by
  have hfold : s.toList.map Char.toLower = t.toList.map Char.toLower := Text.sameName_iff.1 h
  rw [denotes_iff, denotes_iff, ← Numeral.read?_map_toLower, hfold, Numeral.read?_map_toLower]

end Token

theorem Table.find?_congr {s t : Token} (h : Text.sameName s t = true) (T : Table) :
    T.find? s = T.find? t := by
  simp only [find?, Text.sameName, Text.sameName_iff.1 h]

namespace Line

variable {l l' : Line}

theorem tokens_congr (h : Text.sameName l.text l'.text = true) :
    List.Forall₂ (fun t t' => Text.sameName t t' = true) l.tokens l'.tokens := by
  have hwords : (Text.words Text.isBlank l.text.toList).map (List.map Char.toLower) =
      (Text.words Text.isBlank l'.text.toList).map (List.map Char.toLower) := by
    have hfold : l.text.toList.map Char.toLower = l'.text.toList.map Char.toLower :=
      Text.sameName_iff.1 h
    rw [← Text.words_map Text.isBlank_toLower, hfold, Text.words_map Text.isBlank_toLower]
  rw [← List.forall₂_eq_eq_eq, List.forall₂_map_left_iff, List.forall₂_map_right_iff] at hwords
  rw [tokens, tokens, List.forall₂_map_left_iff, List.forall₂_map_right_iff]
  refine hwords.imp fun w w' hw => ?_
  rw [Text.sameName_iff, Text.foldCase, Text.foldCase, String.toList_ofList, String.toList_ofList,
    hw]

theorem trimmed_congr (h : Text.sameName l.text l'.text = true) :
    Text.sameName l.trimmed l'.trimmed = true := by
  have hfold : l.text.toList.map Char.toLower = l'.text.toList.map Char.toLower :=
    Text.sameName_iff.1 h
  rw [Text.sameName_iff, Text.foldCase, Text.foldCase, trimmed, trimmed, String.toList_ofList,
    String.toList_ofList, ← Text.trim_map Text.isBlank_toLower, hfold,
    Text.trim_map Text.isBlank_toLower]

end Line

end NibbleAsm
