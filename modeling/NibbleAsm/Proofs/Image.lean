import NibbleAsm.Proofs.Grammar

/-! Images read back. The words of an image are the bytes it was made of, two digits each, and every
text of that form is an image. Put one on a line and marked as base sixteen, or written out in
decimal, the bytes assemble to themselves whatever the table is. -/

namespace NibbleAsm

namespace Text

def isLowerDigit (c : Char) : Bool :=
  ('0' ≤ c && c ≤ '9') || ('a' ≤ c && c ≤ 'f')

def isLowerPair (w : List Char) : Bool :=
  w.length == 2 && w.all isLowerDigit

theorem isLowerDigit_digitChar {d : ℕ} (hd : d < 16) : isLowerDigit d.digitChar = true := by
  revert d
  decide

theorem exists_digitChar_of_isLowerDigit {c : Char} (hc : isLowerDigit c = true) :
    ∃ d < 16, d.digitChar = c := by
  have hcodes : ∀ n < 128, isLowerDigit (Char.ofNat n) = true →
      ∃ d < 16, d.digitChar = Char.ofNat n := by decide
  have hlt : c.toNat < 128 := by
    simp only [isLowerDigit, Bool.or_eq_true, Bool.and_eq_true, decide_eq_true_eq] at hc
    rcases hc with ⟨-, hc⟩ | ⟨-, hc⟩
    · exact lt_of_le_of_lt (show c.toNat ≤ '9'.toNat from hc) (by decide)
    · exact lt_of_le_of_lt (show c.toNat ≤ 'f'.toNat from hc) (by decide)
  rw [← Char.ofNat_toNat c] at hc ⊢
  exact hcodes c.toNat hlt hc

theorem isLowerPair_hexPair (b : UInt8) : isLowerPair (hexPair b) = true := by
  have hb := b.toNat_lt
  have hhigh := isLowerDigit_digitChar (d := b.toNat / 16) (by omega)
  have hlow := isLowerDigit_digitChar (d := b.toNat % 16) (by omega)
  simp [isLowerPair, hexPair, hhigh, hlow]

theorem positional_hexPair (b : UInt8) : positional 16 (hexPair b) = b.toNat := by
  have hb := b.toNat_lt
  have hhigh := digitValue?_digitChar (d := b.toNat / 16) (by omega)
  have hlow := digitValue?_digitChar (d := b.toNat % 16) (by omega)
  have hpair : hexPair b = [] ++ [(b.toNat / 16).digitChar] ++ [(b.toNat % 16).digitChar] := rfl
  rw [hpair, positional_concat hlow, positional_concat hhigh]
  change (0 * 16 + b.toNat / 16) * 16 + b.toNat % 16 = b.toNat
  omega

theorem exists_hexPair_of_isLowerPair {w : List Char} (hw : isLowerPair w = true) :
    ∃ b, hexPair b = w := by
  simp only [isLowerPair, Bool.and_eq_true, beq_iff_eq, List.length_eq_two, List.all_eq_true] at hw
  obtain ⟨⟨c, c', rfl⟩, hdigits⟩ := hw
  obtain ⟨d, hd, rfl⟩ := exists_digitChar_of_isLowerDigit (hdigits c (by simp))
  obtain ⟨d', hd', rfl⟩ := exists_digitChar_of_isLowerDigit (hdigits c' (by simp))
  have hbyte : (UInt8.ofNat (16 * d + d')).toNat = 16 * d + d' :=
    UInt8.toNat_ofNat_of_lt' (show 16 * d + d' < 256 by omega)
  refine ⟨UInt8.ofNat (16 * d + d'), ?_⟩
  rw [hexPair, hbyte, show (16 * d + d') / 16 = d by omega, show (16 * d + d') % 16 = d' by omega]

theorem not_mem_hexPair {c : Char} (hc : isLowerDigit c = false) (b : UInt8) : c ∉ hexPair b := by
  have hpair := isLowerPair_hexPair b
  simp only [isLowerPair, Bool.and_eq_true, List.all_eq_true] at hpair
  intro hmem
  exact Bool.noConfusion (hc.symm.trans (hpair.2 c hmem))

end Text

namespace Image

/-- What stands on the second line after its address. -/
def body (image : String) : List Char :=
  (image.toList.dropWhile (· != '\n')).drop "\n0: ".length

/-- What stands between the single spaces of the body; in an empty body there is nothing. -/
def words (image : String) : List (List Char) :=
  if body image = [] then [] else (body image).splitOn ' '

theorem body_header_append (s : List Char) :
    body (header ++ "\n0: " ++ String.ofList s) = s := by
  have htext : (header ++ "\n0: " ++ String.ofList s).toList =
      header.toList ++ '\n' :: (['0', ':', ' '] ++ s) := by
    simp only [String.toList_append, String.toList_ofList, List.append_assoc]
    rfl
  have hheader : header.toList.dropWhile (· != '\n') = [] := by decide
  rw [body, htext, Text.dropWhile_append_cons _ (by decide), hheader]
  rfl

theorem words_render (bs : List UInt8) : words (render bs) = bs.map Text.hexPair := by
  have hbody : body (render bs) = Text.hexPairs bs := body_header_append _
  rw [words, hbody, Text.hexPairs]
  cases bs with
  | nil => rfl
  | cons b bs =>
    have hspaces : ∀ w ∈ (b :: bs).map Text.hexPair, ' ' ∉ w := by
      intro w hw
      obtain ⟨b, -, rfl⟩ := List.mem_map.1 hw
      exact Text.not_mem_hexPair (by decide) b
    have hsplit := List.splitOn_intercalate ' ' hspaces (by simp)
    have hne : [' '].intercalate ((b :: bs).map Text.hexPair) ≠ [] := by
      intro hnil
      rw [hnil] at hsplit
      simp [Text.hexPair] at hsplit
    rw [if_neg hne, hsplit]

theorem values_words_render (bs : List UInt8) :
    (words (render bs)).map (positional 16) = bs.map UInt8.toNat := by
  rw [words_render, List.map_map]
  exact List.map_congr_left fun b _ => Text.positional_hexPair b

theorem render_injective : Function.Injective render := by
  intro bs bs' h
  have hvalues := values_words_render bs
  rw [h, values_words_render bs'] at hvalues
  exact List.map_injective_iff.2 (fun _ _ => UInt8.toNat_inj.1) hvalues.symm

theorem exists_render_eq {ws : List (List Char)} (hws : ∀ w ∈ ws, Text.isLowerPair w = true) :
    ∃ bs, render bs = header ++ "\n0: " ++ String.ofList ([' '].intercalate ws) := by
  have hbytes : ∃ bs : List UInt8, bs.map Text.hexPair = ws := by
    induction ws with
    | nil => exact ⟨[], rfl⟩
    | cons w ws ih =>
      obtain ⟨hw, hrest⟩ := List.forall_mem_cons.1 hws
      obtain ⟨b, rfl⟩ := Text.exists_hexPair_of_isLowerPair hw
      obtain ⟨bs, rfl⟩ := ih hrest
      exact ⟨b :: bs, rfl⟩
  obtain ⟨bs, rfl⟩ := hbytes
  exact ⟨bs, rfl⟩

end Image

/-- The line starts with a literal byte that stands for `b`. -/
def Line.SpellsByte (b : UInt8) (l : Line) : Prop :=
  ∃ t args, l.tokens = t :: args ∧ t.isLiteralByte = true ∧ UInt8.ofNat t.literalValue = b

/-- Lines that spell bytes assemble to them, by any table. -/
theorem assembleLines_spellsByte (T : Table) {bs : List UInt8} {lines : List Line}
    (h : List.Forall₂ Line.SpellsByte bs lines) :
    ∃ L, (assembleLines T lines).result = .ok L ∧ L.bytes = bs := by
  have hprogram : ∃ p : Program T, p.lines = lines ∧ p.flatMap Instruction.bytes = bs := by
    induction h with
    | nil => exact ⟨[], rfl, rfl⟩
    | @cons b l bs lines hl _ ih =>
      obtain ⟨p, rfl, rfl⟩ := ih
      obtain ⟨t, args, ht, hliteral, rfl⟩ := hl
      exact ⟨⟨l, [], _, .literal ht hliteral⟩ :: p, rfl, rfl⟩
  obtain ⟨p, rfl, rfl⟩ := hprogram
  exact ⟨p.listing, assembleLines_program p, p.bytes_listing⟩

/-- A line that is one number and reads as a literal byte spells the low bits of the number. -/
theorem Line.spellsByte_of_spelling {l : Line} {radix : ℕ} {ds : List Char} {b : UInt8}
    (hs : Numeral.Spelling (· == 2) l.text.toList radix ds) (hne : l.text.toList ≠ [])
    (hliteral : Token.isLiteralByte l.text = true) (hb : positional radix ds = b.toNat) :
    l.SpellsByte b := by
  have hword : Token.IsWord l.text := ⟨hne, Token.not_isBlank_of_spelling hs⟩
  refine ⟨l.text, [], tokens_word l.number hword, hliteral, ?_⟩
  rw [← Token.positional_eq_literalValue hs, hb, UInt8.ofNat_toNat]

theorem Line.spellsByte_of_marked {l : Line} {mark : Char} {b : UInt8}
    (hmark : Numeral.IsMark mark) (hl : l.text.toList = '0' :: mark :: Text.hexPair b) :
    l.SpellsByte b := by
  have hdigits : ∀ c ∈ Text.hexPair b, isDigitIn 16 c = true := by
    intro c hc
    have hb := b.toNat_lt
    have hdigit : ∀ d < 16, isDigitIn 16 d.digitChar = true := by decide
    rcases List.mem_cons.1 hc with rfl | hc
    · exact hdigit _ (by omega)
    · rw [List.mem_singleton.1 hc]
      exact hdigit _ (by omega)
  have hliteral : Token.isLiteralByte l.text = true := by
    rw [Token.isLiteralByte_of_marked hmark hl]
    exact Token.isHexPair_iff.2 ⟨rfl, hdigits⟩
  refine spellsByte_of_spelling ?_ (by simp [hl]) hliteral (Text.positional_hexPair b)
  rw [hl]
  exact .marked hmark (by simp [Text.hexPair]) hdigits

theorem Line.spellsByte_of_decimal {l : Line} {zeros : ℕ} {b : UInt8}
    (hl : l.text.toList = List.replicate zeros '0' ++ Nat.toDigits 10 b.toNat) :
    l.SpellsByte b := by
  have hne : l.text.toList ≠ [] := by simp [hl, Nat.toDigits_ne_nil]
  have hdigits : ∀ c ∈ l.text.toList, isDigitIn 10 c = true := by
    rw [hl]
    refine isDigitIn_of_mem_zeros_append (by decide) zeros fun c hc => ?_
    exact isDigitIn_of_mem_toDigits (by decide) (by decide) hc
  have hliteral : Token.isLiteralByte l.text = true := by
    rw [Token.isLiteralByte_of_unmarked (Numeral.unmarked_of_digits hdigits),
      Token.isDecimal_iff.2 ⟨hne, hdigits⟩, Bool.or_true]
  refine spellsByte_of_spelling (.decimal hne hdigits) hne hliteral ?_
  rw [hl, positional_zeros_append, positional_toDigits (by decide) (by decide)]

/-- The words of an image are its bytes in order, so that no two lists of bytes have the same image;
these words, marked, and the bytes in decimal are sources that assemble to the bytes; and every text
in the form of an image is one. -/
theorem image_decodes :
    (∀ bs, (Image.words (Image.render bs)).length = bs.length ∧
      (∀ w ∈ Image.words (Image.render bs), Text.isLowerPair w = true) ∧
      (Image.words (Image.render bs)).map (positional 16) = bs.map UInt8.toNat) ∧
    Function.Injective Image.render ∧
    (∀ (T : Table) (bs : List UInt8) (lines : List Line),
      List.Forall₂ (fun w l => ∃ mark, Numeral.IsMark mark ∧ l.text.toList = '0' :: mark :: w)
        (Image.words (Image.render bs)) lines →
      ∃ L, (assembleLines T lines).result = .ok L ∧ L.bytes = bs) ∧
    (∀ (T : Table) (bs : List UInt8) (lines : List Line),
      List.Forall₂ (fun b l => ∃ zeros,
        l.text.toList = List.replicate zeros '0' ++ Nat.toDigits 10 b.toNat) bs lines →
      ∃ L, (assembleLines T lines).result = .ok L ∧ L.bytes = bs) ∧
    ∀ ws : List (List Char), (∀ w ∈ ws, Text.isLowerPair w = true) →
      ∃! bs, Image.render bs = Image.header ++ "\n0: " ++ String.ofList ([' '].intercalate ws) := by
  refine ⟨fun bs => ⟨?_, ?_, Image.values_words_render bs⟩, Image.render_injective, ?_, ?_, ?_⟩
  · rw [Image.words_render, List.length_map]
  · rw [Image.words_render]
    intro w hw
    obtain ⟨b, -, rfl⟩ := List.mem_map.1 hw
    exact Text.isLowerPair_hexPair b
  · intro T bs lines h
    rw [Image.words_render, List.forall₂_map_left_iff] at h
    refine assembleLines_spellsByte T (h.imp ?_)
    rintro b l ⟨mark, hmark, hl⟩
    exact Line.spellsByte_of_marked hmark hl
  · intro T bs lines h
    refine assembleLines_spellsByte T (h.imp ?_)
    rintro b l ⟨zeros, hl⟩
    exact Line.spellsByte_of_decimal hl
  · intro ws hws
    obtain ⟨bs, hbs⟩ := Image.exists_render_eq hws
    exact ⟨bs, hbs, fun bs' hbs' => Image.render_injective (hbs'.trans hbs.symm)⟩

/-- Two bytes and a table whose names look like them: the first byte is not what `10` alone would
be. -/
theorem image_decodes_pair :
    Image.words "v3.0 hex words addressed\n0: 10 ab" = [['1', '0'], ['a', 'b']] ∧
    Image.render [0x10, 0xAB] = "v3.0 hex words addressed\n0: 10 ab" ∧
    (∃ L, (assembleLines ⟨[⟨"10", 0x70⟩], [⟨"0x10", 0x50⟩], [⟨"0Xab", 0xC0⟩]⟩
      [⟨1, "0x10"⟩, ⟨2, "0Xab"⟩]).result = .ok L ∧ L.bytes = [0x10, 0xAB]) ∧
    (∃ L, (assembleLines ⟨[⟨"10", 0x70⟩], [⟨"0x10", 0x50⟩], [⟨"0Xab", 0xC0⟩]⟩
      [⟨1, "0016"⟩, ⟨2, "171"⟩]).result = .ok L ∧ L.bytes = [0x10, 0xAB]) ∧
    ∃! bs, Image.render bs =
      Image.header ++ "\n0: " ++ String.ofList ([' '].intercalate [['1', '0'], ['a', 'b']]) := by
  have hrender : Image.render [0x10, 0xAB] = "v3.0 hex words addressed\n0: 10 ab" := by cbv
  have hwords : Image.words (Image.render [0x10, 0xAB]) = [['1', '0'], ['a', 'b']] :=
    (Image.words_render _).trans (by decide)
  obtain ⟨-, -, hmarked, hdecimal, himage⟩ := image_decodes
  refine ⟨hrender ▸ hwords, hrender, ?_, ?_, himage _ (by decide)⟩
  · refine hmarked _ _ _ ?_
    rw [hwords]
    exact .cons ⟨'x', Or.inl rfl, by decide⟩ (.cons ⟨'X', Or.inr rfl, by decide⟩ .nil)
  · exact hdecimal _ _ _ (.cons ⟨2, by decide⟩ (.cons ⟨0, by decide⟩ .nil))

end NibbleAsm
