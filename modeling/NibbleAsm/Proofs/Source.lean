import NibbleAsm.Assembler
import NibbleAsm.Proofs.Words

/-! Reading source files. A file is its first line, a line feed and a file again, or it is one line
without an end; `cut` follows that (`cut_line`, `cut_last`). In UTF-8 no other character holds the
byte of a line feed or of a carriage return, so cutting the bytes of a text cuts the text. -/

namespace NibbleAsm

namespace Text

def utf8 (s : List Char) : List UInt8 :=
  s.flatMap String.utf8EncodeChar

theorem utf8_append (s t : List Char) : utf8 (s ++ t) = utf8 s ++ utf8 t :=
  List.flatMap_append

theorem utf8_cons (c : Char) (s : List Char) : utf8 (c :: s) = String.utf8EncodeChar c ++ utf8 s :=
  List.flatMap_cons

theorem utf8_eq_nil_iff {s : List Char} : utf8 s = [] ↔ s = [] := by
  cases s with
  | nil => exact ⟨fun _ => rfl, fun _ => rfl⟩
  | cons c s => simp [utf8_cons]

theorem toList_toUTF8 (s : String) : s.toUTF8.data.toList = utf8 s.toList := by
  obtain ⟨cs, rfl⟩ := s.exists_eq_ofList
  rw [String.toUTF8_eq_toByteArray, String.toByteArray_ofList, List.utf8Encode,
    List.toList_data_toByteArray, String.toList_ofList, utf8]

/-- A byte below 128 is a character by itself and part of no other. -/
theorem eq_of_mem_utf8EncodeChar {a c : Char} (ha : a.toNat < 128)
    (h : UInt8.ofNat a.toNat ∈ String.utf8EncodeChar c) : c = a := by
  have hbyte : (UInt8.ofNat a.toNat).toNat = a.toNat :=
    UInt8.toNat_ofNat_of_lt' (lt_trans ha (by decide))
  unfold String.utf8EncodeChar at h
  dsimp only at h
  split_ifs at h with h1 h2 h3
  · have hnat := congrArg UInt8.toNat (List.mem_singleton.1 h)
    rw [hbyte, UInt8.toNat_ofNat_of_lt' (lt_of_le_of_lt h1 (by decide))] at hnat
    exact Char.toNat_inj.1 hnat.symm
  all_goals
    -- every byte of a longer encoding is 128 at least
    exfalso
    simp only [List.mem_cons, List.not_mem_nil, or_false, ← UInt8.toNat_inj, hbyte,
      UInt8.toNat_ofNat'] at h
    omega

theorem mem_of_mem_utf8 {a : Char} (ha : a.toNat < 128) {s : List Char}
    (h : UInt8.ofNat a.toNat ∈ utf8 s) : a ∈ s := by
  obtain ⟨c, hc, hbyte⟩ := List.mem_flatMap.1 h
  rwa [← eq_of_mem_utf8EncodeChar ha hbyte]

end Text

namespace Source

open Text (utf8)

/-- Every list is empty, or a last piece without the mark, or a piece, the mark and a list for which
the same holds. -/
theorem line_induction {α : Type} (mark : α) {motive : List α → Prop} (nil : motive [])
    (last : ∀ line, line ≠ [] → mark ∉ line → motive line)
    (line : ∀ line rest, mark ∉ line → motive rest → motive (line ++ mark :: rest))
    (s : List α) : motive s := by
  induction h : s.length using Nat.strong_induction_on generalizing s with
  | _ n ih =>
    by_cases hmark : mark ∈ s
    · obtain ⟨before, rest, rfl, hbefore⟩ := List.eq_append_cons_of_mem hmark
      refine line before rest hbefore (ih rest.length ?_ rest rfl)
      rw [← h, List.length_append, List.length_cons]
      omega
    · by_cases hnil : s = []
      · rwa [hnil]
      · exact last s hnil hmark

theorem cut_nil : cut [] = [] := by
  rw [cut]

theorem bne_lineFeed {line : List UInt8} (hline : lineFeed ∉ line) :
    ∀ b ∈ line, (b != lineFeed) = true := by
  intro b hb
  rw [bne_iff_ne]
  rintro rfl
  exact hline hb

theorem cut_last {line : List UInt8} (hne : line ≠ []) (hline : lineFeed ∉ line) :
    cut line = [line] := by
  cases line with
  | nil => exact absurd rfl hne
  | cons b s =>
    rw [cut]
    simp only [List.takeWhile_eq_self_iff.2 (bne_lineFeed hline),
      List.dropWhile_eq_nil_iff.2 (bne_lineFeed hline), List.isEmpty_nil, if_true]

theorem cut_line {line : List UInt8} (hline : lineFeed ∉ line) (rest : List UInt8) :
    cut (line ++ lineFeed :: rest) = dropReturn line :: cut rest := by
  have htake : (line ++ lineFeed :: rest).takeWhile (· != lineFeed) = line := by
    rw [Text.takeWhile_append_cons _ (by simp), List.takeWhile_eq_self_iff.2 (bne_lineFeed hline)]
  have hdrop : (line ++ lineFeed :: rest).dropWhile (· != lineFeed) = lineFeed :: rest := by
    rw [Text.dropWhile_append_cons _ (by simp), List.dropWhile_eq_nil_iff.2 (bne_lineFeed hline),
      List.nil_append]
  cases hs : line ++ lineFeed :: rest with
  | nil => simp at hs
  | cons b s =>
    rw [hs] at htake hdrop
    rw [cut]
    simp only [htake, hdrop, List.isEmpty_cons, Bool.false_eq_true, if_false, List.tail_cons]

theorem lineFeed_not_mem_utf8 {s : List Char} (h : '\n' ∉ s) : lineFeed ∉ utf8 s :=
  fun hmem => h (Text.mem_of_mem_utf8 (a := '\n') (by decide) hmem)

theorem utf8_cons_lineFeed (s : List Char) : utf8 ('\n' :: s) = lineFeed :: utf8 s := by
  have hfeed : String.utf8EncodeChar '\n' = [lineFeed] := by decide
  rw [Text.utf8_cons, hfeed, List.singleton_append]

theorem utf8_return : utf8 ['\r'] = [carriageReturn] := by
  decide

theorem dropReturn_utf8_concat (s : List Char) : dropReturn (utf8 (s ++ ['\r'])) = utf8 s := by
  rw [Text.utf8_append, utf8_return, dropReturn, if_pos List.getLast?_concat, List.dropLast_concat]

/-- Dropping the byte of a carriage return drops the character. -/
theorem exists_dropReturn_utf8 (line : List Char) :
    ∃ text, dropReturn (utf8 line) = utf8 text ∧ (line = text ∨ line = text ++ ['\r']) := by
  by_cases hlast : (utf8 line).getLast? = some carriageReturn
  · rcases List.eq_nil_or_concat' line with rfl | ⟨text, c, rfl⟩
    · cases hlast
    · have hmem : carriageReturn ∈ String.utf8EncodeChar c := by
        have hc : utf8 [c] = String.utf8EncodeChar c := List.append_nil _
        rw [Text.utf8_append, hc, List.getLast?_append_of_ne_nil _ String.utf8EncodeChar_ne_nil]
          at hlast
        exact List.mem_of_getLast? hlast
      obtain rfl : c = '\r' := Text.eq_of_mem_utf8EncodeChar (a := '\r') (by decide) hmem
      exact ⟨text, dropReturn_utf8_concat text, Or.inr rfl⟩
  · exact ⟨line, by rw [dropReturn, if_neg hlast], Or.inl rfl⟩

theorem cut_utf8_last {line : List Char} (hne : line ≠ []) (hline : '\n' ∉ line) :
    cut (utf8 line) = [utf8 line] :=
  cut_last (mt Text.utf8_eq_nil_iff.1 hne) (lineFeed_not_mem_utf8 hline)

theorem cut_utf8_line {line : List Char} (hline : '\n' ∉ line) (rest : List Char) :
    cut (utf8 (line ++ '\n' :: rest)) = dropReturn (utf8 line) :: cut (utf8 rest) := by
  rw [Text.utf8_append, utf8_cons_lineFeed]
  exact cut_line (lineFeed_not_mem_utf8 hline) (utf8 rest)

theorem decode?_eq_some_iff {bs : List UInt8} {t : String} :
    decode? bs = some t ↔ utf8 t.toList = bs := by
  rw [decode?, String.fromUTF8?, Option.dite_none_right_eq_some]
  constructor
  · rintro ⟨h, ht⟩
    rw [← Text.toList_toUTF8, ← Option.some_inj.1 ht]
    rfl
  · rintro rfl
    have hbytes : (⟨(utf8 t.toList).toArray⟩ : ByteArray) = t.toByteArray := by
      rw [← Text.toList_toUTF8, Array.toArray_toList]
      rfl
    exact ⟨hbytes ▸ t.isValidUTF8, congrArg some (String.toByteArray_inj.1 hbytes)⟩

theorem read_of_cut {content : ByteArray} {texts : List (List Char)}
    (h : cut content.data.toList = texts.map utf8) :
    read content = .ok (Line.numbered (texts.map String.ofList)) := by
  have hdecode : (texts.map utf8).mapM decode? = some (texts.map String.ofList) := by
    clear h
    induction texts with
    | nil => rfl
    | cons s texts ih =>
      have hs : decode? (utf8 s) = some (String.ofList s) := by
        rw [decode?_eq_some_iff, String.toList_ofList]
      rw [List.map_cons, List.mapM_cons, hs, ih]
      rfl
  rw [read, h, hdecode]

theorem exists_cut_utf8 (s : List Char) :
    ∃ texts : List (List Char), cut (utf8 s) = texts.map utf8 := by
  induction s using line_induction '\n' with
  | nil => exact ⟨[], cut_nil⟩
  | last line hne hline => exact ⟨[line], cut_utf8_last hne hline⟩
  | line line rest hline ih =>
    obtain ⟨texts, htexts⟩ := ih
    obtain ⟨text, htext, -⟩ := exists_dropReturn_utf8 line
    refine ⟨text :: texts, ?_⟩
    rw [cut_utf8_line hline, htext, htexts, List.map_cons]

theorem exists_utf8_of_dropReturn {line : List UInt8} {s : List Char}
    (h : dropReturn line = utf8 s) : ∃ s', line = utf8 s' := by
  unfold dropReturn at h
  split_ifs at h with hlast
  · refine ⟨s ++ ['\r'], ?_⟩
    rw [Text.utf8_append, utf8_return, ← h, List.dropLast_append_getLast? _ hlast]
  · exact ⟨s, h⟩

/-- Bytes whose lines all decode are UTF-8 as a whole. -/
theorem exists_utf8_of_mapM {bs : List UInt8} {texts : List String}
    (h : (cut bs).mapM decode? = some texts) : ∃ s, bs = utf8 s := by
  induction bs using line_induction lineFeed generalizing texts with
  | nil => exact ⟨[], rfl⟩
  | last line hne hline =>
    rw [cut_last hne hline, List.mapM_cons] at h
    obtain ⟨t, ht, -⟩ := Option.bind_eq_some_iff.1 h
    exact ⟨t.toList, (decode?_eq_some_iff.1 ht).symm⟩
  | line line rest hline ih =>
    rw [cut_line hline, List.mapM_cons] at h
    obtain ⟨t, ht, h⟩ := Option.bind_eq_some_iff.1 h
    obtain ⟨ts, hts, -⟩ := Option.bind_eq_some_iff.1 h
    obtain ⟨s, rfl⟩ := ih hts
    obtain ⟨s', rfl⟩ := exists_utf8_of_dropReturn (decode?_eq_some_iff.1 ht).symm
    refine ⟨s' ++ '\n' :: s, ?_⟩
    rw [Text.utf8_append, utf8_cons_lineFeed]

/-- A file is read just when it is UTF-8 as a whole, though it is decoded line by line. -/
theorem exists_read_iff (content : ByteArray) :
    (∃ lines, read content = .ok lines) ↔ ∃ text : String, content = text.toUTF8 := by
  constructor
  · rintro ⟨lines, h⟩
    unfold read at h
    split at h
    next texts htexts =>
      obtain ⟨s, hs⟩ := exists_utf8_of_mapM htexts
      refine ⟨String.ofList s, ?_⟩
      apply ByteArray.ext
      apply Array.toList_inj.1
      rw [hs, Text.toList_toUTF8, String.toList_ofList]
    next => cases h
  · rintro ⟨text, rfl⟩
    obtain ⟨texts, htexts⟩ := exists_cut_utf8 text.toList
    rw [← Text.toList_toUTF8] at htexts
    exact ⟨_, read_of_cut htexts⟩

end Source

theorem assembleSource_of_read {T : Table} {content : ByteArray} {lines : List Line}
    (h : Source.read content = .ok lines) :
    (assembleSource T content).result = (assembleLines T lines).result.mapError .fault := by
  rw [assembleSource, readSource, h]

/-- What assembles has been read, and its lines assemble to the same. -/
theorem exists_read_of_assembleSource {T : Table} {content : ByteArray} {L : Listing}
    (h : (assembleSource T content).result = .ok L) :
    ∃ lines, Source.read content = .ok lines ∧ (assembleLines T lines).result = .ok L := by
  cases hread : Source.read content with
  | error e =>
    unfold assembleSource readSource at h
    rw [hread] at h
    cases h
  | ok lines =>
    refine ⟨lines, rfl, ?_⟩
    rw [assembleSource_of_read hread] at h
    cases hlines : (assembleLines T lines).result with
    | error f =>
      rw [hlines] at h
      cases h
    | ok L' =>
      rw [hlines] at h
      exact congrArg _ (Except.ok.inj h)

theorem exists_text_of_assembleSource {T : Table} {content : ByteArray} {L : Listing}
    (h : (assembleSource T content).result = .ok L) : ∃ text : String, content = text.toUTF8 := by
  obtain ⟨lines, hread, -⟩ := exists_read_of_assembleSource h
  exact (Source.exists_read_iff content).1 ⟨lines, hread⟩

end NibbleAsm
