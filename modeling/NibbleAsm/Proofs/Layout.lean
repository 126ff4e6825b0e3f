import Mathlib
import NibbleAsm.Proofs.Source

/-! The layout of a source file: its lines, each with the end it has there. Every text has a layout,
reading a file gives the lines of its layout, and these with the file decide the layout. So reading
cuts a file exactly and loses nothing but the ends of its lines, which can be told again. -/

namespace NibbleAsm.Source

open Text (utf8)

inductive Terminator where
  | feed
  | returnFeed
  | fileEnd
deriving DecidableEq, Repr

def Terminator.chars : Terminator → List Char
  | .feed => ['\n']
  | .returnFeed => ['\r', '\n']
  | .fileEnd => []

/-- A line with its end. It has no line feed in it, a carriage return before the line feed belongs
to the end, and a line that the file ends is not empty. -/
@[ext]
structure EndedLine where
  text : String
  terminator : Terminator
  no_feed : '\n' ∉ text.toList
  no_return : terminator = .feed → text.toList.getLast? ≠ some '\r'
  not_empty : terminator = .fileEnd → text ≠ ""

def EndedLine.chars (l : EndedLine) : List Char :=
  l.text.toList ++ l.terminator.chars

/-- Only the last line may be ended by the file. -/
def Terminated (ls : List EndedLine) : Prop :=
  ∀ l ∈ ls.dropLast, l.terminator ≠ .fileEnd

@[ext]
structure Layout where
  lines : List EndedLine
  terminated : Terminated lines

def Layout.texts (F : Layout) : List String :=
  F.lines.map EndedLine.text

def Layout.content (F : Layout) : String :=
  String.ofList (F.lines.flatMap EndedLine.chars)

theorem terminated_nil : Terminated [] := by
  simp [Terminated]

theorem terminated_cons {l : EndedLine} {ls : List EndedLine} :
    Terminated (l :: ls) ↔ (l.terminator = .fileEnd → ls = []) ∧ Terminated ls := by
  cases ls with
  | nil => simp [Terminated]
  | cons m ls => simp [Terminated]

theorem dropReturn_utf8_of_ne {s : List Char} (h : s.getLast? ≠ some '\r') :
    dropReturn (utf8 s) = utf8 s := by
  obtain ⟨text, htext, rfl | rfl⟩ := exists_dropReturn_utf8 s
  · exact htext
  · exact absurd List.getLast?_concat h

theorem cut_lines {ls : List EndedLine} (h : Terminated ls) :
    cut (utf8 (ls.flatMap EndedLine.chars)) = ls.map fun l => utf8 l.text.toList := by
  induction ls with
  | nil => exact cut_nil
  | cons l ls ih =>
    obtain ⟨hlast, hls⟩ := terminated_cons.1 h
    rw [List.flatMap_cons, List.map_cons, ← ih hls, EndedLine.chars, List.append_assoc]
    cases hend : l.terminator with
    | feed =>
      rw [Terminator.chars, List.singleton_append, cut_utf8_line l.no_feed,
        dropReturn_utf8_of_ne (l.no_return hend)]
    | returnFeed =>
      have hfeed : '\n' ∉ l.text.toList ++ ['\r'] := by simpa using l.no_feed
      have hline := cut_utf8_line hfeed (ls.flatMap EndedLine.chars)
      rw [dropReturn_utf8_concat, List.append_assoc] at hline
      exact hline
    | fileEnd =>
      -- this is the last line, since nothing follows the end of the file
      have hne : l.text.toList ≠ [] := by simpa using l.not_empty hend
      rw [hlast hend, Terminator.chars, List.flatMap_nil, List.append_nil, List.append_nil,
        cut_utf8_last hne l.no_feed]
      exact congrArg _ cut_nil.symm

theorem exists_layout (s : List Char) :
    ∃ ls : List EndedLine, Terminated ls ∧ ls.flatMap EndedLine.chars = s := by
  induction s using line_induction '\n' with
  | nil => exact ⟨[], terminated_nil, rfl⟩
  | last line hne hline =>
    let l : EndedLine :=
      ⟨String.ofList line, .fileEnd, by simpa using hline, by simp, by simpa using hne⟩
    refine ⟨[l], terminated_cons.2 ⟨fun _ => rfl, terminated_nil⟩, ?_⟩
    simp [l, EndedLine.chars, Terminator.chars]
  | line line rest hline ih =>
    obtain ⟨ls, hls, rfl⟩ := ih
    -- a carriage return before the line feed goes to the end of the line
    by_cases hreturn : line.getLast? = some '\r'
    · obtain ⟨text, rfl⟩ := List.getLast?_eq_some_iff.1 hreturn
      let l : EndedLine := ⟨String.ofList text, .returnFeed, by simp_all, by simp, by simp⟩
      refine ⟨l :: ls, terminated_cons.2 ⟨by simp [l], hls⟩, ?_⟩
      simp [l, EndedLine.chars, Terminator.chars]
    · let l : EndedLine :=
        ⟨String.ofList line, .feed, by simpa using hline, by simpa using hreturn, by simp⟩
      refine ⟨l :: ls, terminated_cons.2 ⟨by simp [l], hls⟩, ?_⟩
      simp [l, EndedLine.chars, Terminator.chars]

/-- What follows a text tells its end, where nothing follows the end of the file. -/
theorem Terminator.append_inj {t t' : Terminator} {s s' : List Char}
    (hs : t = .fileEnd → s = []) (hs' : t' = .fileEnd → s' = [])
    (h : t.chars ++ s = t'.chars ++ s') : t = t' ∧ s = s' := by
  cases t <;> cases t' <;> simp_all [chars]

/-- The texts of the lines and the file tell the end of each line. -/
theorem eq_of_chars_eq {ls ms : List EndedLine} (hls : Terminated ls) (hms : Terminated ms)
    (htexts : ls.map EndedLine.text = ms.map EndedLine.text)
    (h : ls.flatMap EndedLine.chars = ms.flatMap EndedLine.chars) : ls = ms := by
  induction ls generalizing ms with
  | nil => exact (List.map_eq_nil_iff.1 htexts.symm).symm
  | cons l ls ih =>
    cases ms with
    | nil => cases htexts
    | cons m ms =>
      obtain ⟨htext, htexts⟩ := List.cons.inj htexts
      obtain ⟨hlast, hls⟩ := terminated_cons.1 hls
      obtain ⟨hlast', hms⟩ := terminated_cons.1 hms
      rw [List.flatMap_cons, List.flatMap_cons, EndedLine.chars, EndedLine.chars, htext,
        List.append_assoc, List.append_assoc, List.append_cancel_left_eq] at h
      obtain ⟨hend, hrest⟩ := Terminator.append_inj (fun he => by simp [hlast he])
        (fun he => by simp [hlast' he]) h
      rw [EndedLine.ext htext hend, ih hls hms htexts hrest]

theorem read_content (F : Layout) : read F.content.toUTF8 = .ok (Line.numbered F.texts) := by
  have hcut : cut F.content.toUTF8.data.toList = (F.texts.map String.toList).map utf8 := by
    rw [Text.toList_toUTF8, Layout.content, String.toList_ofList, cut_lines F.terminated,
      Layout.texts, List.map_map, List.map_map]
    rfl
  rw [read_of_cut hcut, List.map_map]
  simp [Function.comp_def]

theorem isValidUTF8_iff {content : ByteArray} :
    content.IsValidUTF8 ↔ ∃ text : String, content = text.toUTF8 := by
  constructor
  · intro h
    exact ⟨String.ofByteArray content h, rfl⟩
  · rintro ⟨text, rfl⟩
    exact text.isValidUTF8

theorem exists_content_eq (text : String) : ∃ F : Layout, F.content = text := by
  obtain ⟨ls, hls, hchars⟩ := exists_layout text.toList
  exact ⟨⟨ls, hls⟩, by rw [Layout.content, hchars, String.ofList_toList]⟩

theorem Layout.eq_of_content_eq {F G : Layout} (htexts : F.texts = G.texts)
    (hcontent : F.content = G.content) : F = G :=
  Layout.ext (eq_of_chars_eq F.terminated G.terminated htexts (String.ofList_injective hcontent))

end NibbleAsm.Source

namespace NibbleAsm

theorem Line.map_number_numbered (texts : List String) :
    (numbered texts).map number = List.range' 1 texts.length := by
  rw [numbered, List.map_map, ← List.zipIdx_map_snd]
  rfl

theorem Line.map_text_numbered (texts : List String) : (numbered texts).map text = texts := by
  rw [numbered, List.map_map]
  exact List.zipIdx_map_fst 1 texts

/-- A file is read just when it is UTF-8 as a whole. The lines are then numbered from one and hold
no line feed, and there is exactly one choice of ends with which they make up the file; conversely,
lines with ends that they can have are read back from the file they make up. -/
theorem read_layout (content : ByteArray) :
    ((∃ lines, Source.read content = .ok lines) ↔ content.IsValidUTF8) ∧
    (¬ content.IsValidUTF8 → Source.read content = .error .notUtf8) ∧
    (∀ lines, Source.read content = .ok lines →
      lines.map Line.number = List.range' 1 lines.length ∧
      (∀ l ∈ lines, '\n' ∉ l.text.toList) ∧
      ∃! F : Source.Layout, F.texts = lines.map Line.text ∧ F.content.toUTF8 = content) ∧
    ∀ F : Source.Layout, Source.read F.content.toUTF8 = .ok (Line.numbered F.texts) := by
  have hvalid : (∃ lines, Source.read content = .ok lines) ↔ content.IsValidUTF8 :=
    (Source.exists_read_iff content).trans Source.isValidUTF8_iff.symm
  refine ⟨hvalid, fun hnot => ?_, fun lines hlines => ?_, Source.read_content⟩
  · cases h : Source.read content with
    | ok lines => exact absurd (hvalid.1 ⟨lines, h⟩) hnot
    | error e => cases e; rfl
  · obtain ⟨text, rfl⟩ := (Source.exists_read_iff content).1 ⟨lines, hlines⟩
    obtain ⟨F, rfl⟩ := Source.exists_content_eq text
    obtain rfl : Line.numbered F.texts = lines :=
      Except.ok.inj ((Source.read_content F).symm.trans hlines)
    refine ⟨?_, ?_, F, ⟨(Line.map_text_numbered F.texts).symm, rfl⟩, ?_⟩
    · rw [Line.map_number_numbered, Line.numbered, List.length_map, List.length_zipIdx]
    · intro l hl
      have htext : l.text ∈ F.texts := by
        rw [← Line.map_text_numbered F.texts]
        exact List.mem_map_of_mem hl
      obtain ⟨m, -, hm⟩ := List.mem_map.1 htext
      rw [← hm]
      exact m.no_feed
    · rintro G ⟨htexts, hcontent⟩
      rw [Line.map_text_numbered] at htexts
      exact Source.Layout.eq_of_content_eq htexts (String.toByteArray_inj.1 hcontent)

/-- Of two carriage returns before a line feed one stays, and one at the end of the file stays too.
A character that a line feed cuts in two is not UTF-8. -/
theorem read_layout_returns :
    Source.read "a\r\r\n\nb\r".toUTF8 = .ok [⟨1, "a\r"⟩, ⟨2, ""⟩, ⟨3, "b\r"⟩] ∧
    (∃! F : Source.Layout, F.texts = ["a\r", "", "b\r"] ∧
      F.content.toUTF8 = "a\r\r\n\nb\r".toUTF8) ∧
    ¬ (⟨#[0xC3, 0x0A, 0xA9]⟩ : ByteArray).IsValidUTF8 ∧
    Source.read ⟨#[0xC3, 0x0A, 0xA9]⟩ = .error .notUtf8 := by
  have hread : Source.read "a\r\r\n\nb\r".toUTF8 = .ok [⟨1, "a\r"⟩, ⟨2, ""⟩, ⟨3, "b\r"⟩] := by cbv
  have hcut : ¬ (⟨#[0xC3, 0x0A, 0xA9]⟩ : ByteArray).IsValidUTF8 := by decide
  exact ⟨hread, ((read_layout _).2.2.1 _ hread).2.2, hcut, (read_layout _).2.1 hcut⟩

end NibbleAsm
