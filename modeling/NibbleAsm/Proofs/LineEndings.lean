import NibbleAsm.Proofs.Likeness
import NibbleAsm.Proofs.Source

/-! The ends of lines. A carriage return more before a line feed, or a line feed more at the end of
a file, leaves each line the same but for a carriage return at its end. That is a blank, so the
lines are the same when trimmed, and the files assemble alike. -/

namespace NibbleAsm

namespace Text

/-- `Returned s s'`: the text `s'` is `s` with a carriage return put before some of its line
feeds. -/
inductive Returned : List Char → List Char → Prop
  | nil : Returned [] []
  | keep {s s' : List Char} (c : Char) (h : Returned s s') : Returned (c :: s) (c :: s')
  | insert {s s' : List Char} (h : Returned s s') : Returned ('\n' :: s) ('\r' :: '\n' :: s')

/-- The text `s'` is `s` with a carriage return put before some of its line feeds and, where a last
line has no end, possibly a line feed put after it. -/
def Reended (s s' : List Char) : Prop :=
  ∃ t, Returned s t ∧ (s' = t ∨ s ≠ [] ∧ s.getLast? ≠ some '\n' ∧ s' = t ++ ['\n'])

/-- The same text but for one carriage return at the end. -/
def SameButReturn (s s' : List Char) : Prop :=
  s' = s ∨ s' = s ++ ['\r'] ∨ s = s' ++ ['\r']

theorem Returned.line_append {line rest s' : List Char} (hline : '\n' ∉ line)
    (h : Returned (line ++ rest) s') : ∃ rest', s' = line ++ rest' ∧ Returned rest rest' := by
  induction line generalizing s' with
  | nil => exact ⟨s', rfl, h⟩
  | cons c line ih =>
    rw [List.mem_cons, not_or] at hline
    cases h with
    | keep _ h =>
      obtain ⟨rest', rfl, hrest⟩ := ih hline.2 h
      exact ⟨rest', rfl, hrest⟩
    | insert h => exact absurd rfl hline.1

theorem Returned.eq_of_not_mem {line s' : List Char} (hline : '\n' ∉ line)
    (h : Returned line s') : s' = line := by
  rw [← List.append_nil line] at h
  obtain ⟨rest', rfl, hrest⟩ := h.line_append hline
  cases hrest
  rw [List.append_nil]

theorem Reended.eq_nil {s' : List Char} (h : Reended [] s') : s' = [] := by
  obtain ⟨t, ht, rfl | ⟨hne, -⟩⟩ := h
  · cases ht
    rfl
  · exact absurd rfl hne

theorem Reended.last {line s' : List Char} (hline : '\n' ∉ line) (h : Reended line s') :
    s' = line ∨ s' = line ++ ['\n'] := by
  obtain ⟨t, ht, rfl | ⟨-, -, rfl⟩⟩ := h
  · exact Or.inl (ht.eq_of_not_mem hline)
  · exact Or.inr (by rw [ht.eq_of_not_mem hline])

theorem Reended.line {line rest s' : List Char} (hline : '\n' ∉ line)
    (h : Reended (line ++ '\n' :: rest) s') :
    ∃ rest', Reended rest rest' ∧
      (s' = line ++ '\n' :: rest' ∨ s' = line ++ ['\r'] ++ '\n' :: rest') := by
  obtain ⟨t, ht, hend⟩ := h
  obtain ⟨u, rfl, hu⟩ := ht.line_append hline
  -- the end of the file is the end of what follows the line feed, unless that is nothing
  have hrest : ∀ (feed : List Char) {u}, Returned rest u → (s' = line ++ (feed ++ u) ∨
      line ++ '\n' :: rest ≠ [] ∧ (line ++ '\n' :: rest).getLast? ≠ some '\n' ∧
        s' = line ++ (feed ++ u) ++ ['\n']) →
      ∃ rest', Reended rest rest' ∧ s' = line ++ (feed ++ rest') := by
    intro feed u hu hend
    rcases hend with rfl | ⟨-, hlast, rfl⟩
    · exact ⟨u, ⟨u, hu, Or.inl rfl⟩, rfl⟩
    · have hne : rest ≠ [] := by
        rintro rfl
        exact hlast List.getLast?_concat
      obtain ⟨c, rest, rfl⟩ := List.exists_cons_of_ne_nil hne
      rw [List.getLast?_append_cons, List.getLast?_cons_cons] at hlast
      exact ⟨u ++ ['\n'], ⟨u, hu, Or.inr ⟨hne, hlast, rfl⟩⟩, by simp⟩
  cases hu with
  | keep _ hu =>
    obtain ⟨rest', hrest', rfl⟩ := hrest ['\n'] hu hend
    exact ⟨rest', hrest', Or.inl rfl⟩
  | insert hu =>
    obtain ⟨rest', hrest', rfl⟩ := hrest ['\r', '\n'] hu hend
    exact ⟨rest', hrest', Or.inr (by simp)⟩

theorem trim_concat {α : Type} {sep : α → Bool} {c : α} (hc : sep c = true) (s : List α) :
    trim sep (s ++ [c]) = trim sep s := by
  have hdrop : (s ++ [c]).dropWhile sep = s.dropWhile sep ++ [c] ∨
      (s ++ [c]).dropWhile sep = [] ∧ s.dropWhile sep = [] := by
    rw [List.dropWhile_append]
    split
    next hs => exact Or.inr ⟨by simp [hc], List.isEmpty_iff.1 hs⟩
    next => exact Or.inl rfl
  rcases hdrop with hdrop | ⟨hdrop, hnil⟩
  · rw [trim, hdrop]
    exact List.rdropWhile_concat_pos sep _ c hc
  · rw [trim, trim, hdrop, hnil]

theorem SameButReturn.trim_eq {s s' : List Char} (h : SameButReturn s s') :
    trim isBlank s = trim isBlank s' := by
  have hreturn : isBlank '\r' = true := by decide
  rcases h with rfl | rfl | rfl
  · rfl
  · rw [trim_concat hreturn]
  · rw [trim_concat hreturn]

end Text

namespace Source

open Text (utf8)

/-- Other ends leave the lines as they are but for a carriage return. -/
theorem exists_cut_reended {s s' : List Char} (h : Text.Reended s s') :
    ∃ texts texts', cut (utf8 s) = texts.map utf8 ∧ cut (utf8 s') = texts'.map utf8 ∧
      List.Forall₂ Text.SameButReturn texts texts' := by
  induction s using line_induction '\n' generalizing s' with
  | nil =>
    rw [h.eq_nil]
    exact ⟨[], [], cut_nil, cut_nil, .nil⟩
  | last line hne hline =>
    rcases h.last hline with hs' | hs' <;> rw [hs']
    · exact ⟨[line], [line], cut_utf8_last hne hline, cut_utf8_last hne hline,
        .cons (Or.inl rfl) .nil⟩
    · -- the line feed that is put at the end takes a carriage return before it along
      obtain ⟨text, htext, hdropped⟩ := exists_dropReturn_utf8 line
      refine ⟨[line], [text], cut_utf8_last hne hline, ?_, .cons ?_ .nil⟩
      · rw [cut_utf8_line hline, htext]
        exact congrArg (utf8 text :: ·) cut_nil
      · rcases hdropped with rfl | rfl
        · exact Or.inl rfl
        · exact Or.inr (Or.inr rfl)
  | line line rest hline ih =>
    obtain ⟨rest', hrest, hs'⟩ := h.line hline
    obtain ⟨texts, texts', hcut, hcut', hsame⟩ := ih hrest
    obtain ⟨text, htext, hdropped⟩ := exists_dropReturn_utf8 line
    have hfirst : cut (utf8 (line ++ '\n' :: rest)) = (text :: texts).map utf8 := by
      rw [cut_utf8_line hline, htext, hcut, List.map_cons]
    rcases hs' with rfl | rfl
    · refine ⟨text :: texts, text :: texts', hfirst, ?_, .cons (Or.inl rfl) hsame⟩
      rw [cut_utf8_line hline, htext, hcut', List.map_cons]
    · have hline' : '\n' ∉ line ++ ['\r'] := by simpa using hline
      refine ⟨text :: texts, line :: texts', hfirst, ?_, .cons ?_ hsame⟩
      · rw [cut_utf8_line hline', dropReturn_utf8_concat, hcut', List.map_cons]
      · rcases hdropped with rfl | rfl
        · exact Or.inl rfl
        · exact Or.inr (Or.inl rfl)

end Source

namespace Likeness

def trimmed : Likeness where
  line l l' := l.number = l'.number ∧ l.trimmed = l'.trimmed
  name := Eq
  token := Eq
  text := Eq

theorem trimmed_carries (T : Table) : trimmed.Carries T T := by
  refine .of_token_eq rfl (fun hl => hl.1) (fun {l l'} hl => ?_) (fun hl => hl.2) ?_
  · rw [← Line.tokens_trimmed l, ← Line.tokens_trimmed l', hl.1, hl.2]
  · intro t op _ hop
    exact ⟨op, hop, rfl, rfl, rfl⟩

theorem trimmed_sameMisses (T : Table) : trimmed.SameMisses T T := by
  intro t t' ht _ hnone
  obtain rfl : t = t' := ht
  exact hnone

theorem display_eq {e e' : Emission} (h : trimmed.SameEmission e e') : e.display = e'.display := by
  obtain ⟨⟨hnumber, htrimmed⟩, -, hbytes⟩ := h
  rw [Emission.display, Emission.display, Emission.hex, Emission.hex, hnumber, htrimmed, hbytes]

end Likeness

/-- Texts that are the same when trimmed make lines that are. -/
theorem Line.numbered_sameButReturn {texts texts' : List (List Char)}
    (h : List.Forall₂ Text.SameButReturn texts texts') :
    List.Forall₂ Likeness.trimmed.line (numbered (texts.map String.ofList))
      (numbered (texts'.map String.ofList)) := by
  unfold numbered
  generalize 1 = first
  induction h generalizing first with
  | nil => exact .nil
  | @cons s s' texts texts' hs _ ih =>
    simp only [List.map_cons, List.zipIdx_cons]
    refine .cons ⟨rfl, ?_⟩ (ih (first + 1))
    rw [trimmed, trimmed, String.toList_ofList, String.toList_ofList, hs.trim_eq]

/-- A file with other line ends gives the same fault, or a listing with the same numbers, addresses,
bytes and trimmed sources, and hence the same display and the same image. -/
theorem assembleSource_reended {c c' : String} (h : Text.Reended c.toList c'.toList) (T : Table) :
    (∃ f, (assembleSource T c.toUTF8).result = .error (.fault f) ∧
      (assembleSource T c'.toUTF8).result = .error (.fault f)) ∨
    ∃ L L', (assembleSource T c.toUTF8).result = .ok L ∧
      (assembleSource T c'.toUTF8).result = .ok L' ∧
      List.Forall₂
        (fun e e' : Emission => e.line.number = e'.line.number ∧ e.address = e'.address ∧
          e.bytes = e'.bytes ∧ e.line.trimmed = e'.line.trimmed)
        L.emissions L'.emissions ∧
      L.emissions.map Emission.display = L'.emissions.map Emission.display ∧
      Image.render L.bytes = Image.render L'.bytes := by
  obtain ⟨texts, texts', hcut, hcut', htexts⟩ := Source.exists_cut_reended h
  rw [← Text.toList_toUTF8] at hcut hcut'
  rw [assembleSource_of_read (Source.read_of_cut hcut),
    assembleSource_of_read (Source.read_of_cut hcut')]
  have hsame := assembleLines_alike (Likeness.trimmed_carries T)
    (Line.numbered_sameButReturn htexts) fun _ => Likeness.trimmed_sameMisses T
  have hbytes := hsame.bytes_eq
  generalize (assembleLines T (Line.numbered (texts.map String.ofList))).result = r,
    (assembleLines T (Line.numbered (texts'.map String.ofList))).result = r' at hsame hbytes
  cases hsame with
  | error hf =>
    obtain rfl := hf.eq rfl rfl rfl
    exact Or.inl ⟨_, rfl, rfl⟩
  | @ok L L' hes =>
    refine Or.inr ⟨L, L', rfl, rfl, ?_, ?_, ?_⟩
    · exact hes.imp fun e e' he => ⟨he.line.1, he.address, he.bytes, he.line.2⟩
    · rw [← List.forall₂_eq_eq_eq, List.forall₂_map_left_iff, List.forall₂_map_right_iff]
      exact hes.imp fun e e' he => Likeness.display_eq he
    · rw [Option.some_inj.1 hbytes]

/-- A load whose byte is the last line and ends in a carriage return, with more line ends; and an
unknown line with and without its end. -/
theorem assembleSource_reended_load :
    Text.Reended "ldi\r\n\n9\r".toList "ldi\r\r\n\r\n9\r\n".toList ∧
    (assembleSource .withImmediate "ldi\r\n\n9\r".toUTF8).result =
      .ok ⟨[⟨⟨1, "ldi"⟩, 0, [0xC0, 9]⟩]⟩ ∧
    (∃ L', (assembleSource .withImmediate "ldi\r\r\n\r\n9\r\n".toUTF8).result = .ok L' ∧
      L'.emissions.map Emission.display = ["   1: ldi => c0 09"]) ∧
    (assembleSource .withImmediate "?\r".toUTF8).result = .error (.fault ⟨1, .unrecognized "?"⟩) ∧
    (assembleSource .withImmediate "?\r\n".toUTF8).result =
      .error (.fault ⟨1, .unrecognized "?"⟩) := by
  have hload : Text.Reended "ldi\r\n\n9\r".toList "ldi\r\r\n\r\n9\r\n".toList := by
    refine ⟨"ldi\r\r\n\r\n9\r".toList, ?_, Or.inr ⟨by decide, by decide, by decide⟩⟩
    exact .keep _ (.keep _ (.keep _ (.keep _ (.insert (.insert (.keep _ (.keep _ .nil)))))))
  have hunknown : Text.Reended "?\r".toList "?\r\n".toList :=
    ⟨"?\r".toList, .keep _ (.keep _ .nil), Or.inr ⟨by decide, by decide, by decide⟩⟩
  have hok : (assembleSource .withImmediate "ldi\r\n\n9\r".toUTF8).result =
      .ok ⟨[⟨⟨1, "ldi"⟩, 0, [0xC0, 9]⟩]⟩ := by cbv
  have herror : (assembleSource .withImmediate "?\r".toUTF8).result =
      .error (.fault ⟨1, .unrecognized "?"⟩) := by cbv
  refine ⟨hload, hok, ?_, herror, ?_⟩
  · rcases assembleSource_reended hload .withImmediate with
      ⟨f, hf, -⟩ | ⟨L, L', hL, hL', -, hshown, -⟩
    · cases hf.symm.trans hok
    · obtain rfl := Except.ok.inj (hok.symm.trans hL)
      exact ⟨L', hL', hshown.symm.trans (by cbv)⟩
  · rcases assembleSource_reended hunknown .withImmediate with ⟨f, hf, hf'⟩ | ⟨L, L', hL, -⟩
    · obtain rfl := SourceError.fault.inj (Except.error.inj (herror.symm.trans hf))
      exact hf'
    · cases hL.symm.trans herror

end NibbleAsm
