import Mathlib
import NibbleAsm.Proofs.Course
import NibbleAsm.Proofs.FileSystem
import NibbleAsm.Proofs.Source

/-! The command and its files. A run that exits with 1 leaves every file as it was; a run that exits
with 0 has written the image to one place, and nothing else has changed. -/

namespace NibbleAsm.Command

variable {fs : FileSystem} {o : Options}

theorem Ending.status_eq_zero_or_one (e : Ending) : e.status = 0 ∨ e.status = 1 := by
  cases e <;> simp [status]

theorem Ending.files_of_status_eq_one {e : Ending} (h : e.status = 1) : e.files fs = fs := by
  cases e with
  | failed f => rfl
  | wrote bytes path files => cases h

/-- The path is the one that the options give, or else the stem of the name that the input ends
in. -/
def Options.IsOutput (o : Options) (path : String) : Prop :=
  o.output? = some path ∨
    o.output? = none ∧ ∃ name, Path.EndsIn o.input name ∧ Path.IsStem name path

theorem Options.isOutput_of_read {content : ByteArray} {path : String}
    (hread : fs.read o.input = .ok content) (hpath : o.outputPath? = some path) :
    o.IsOutput path := by
  rw [o.outputPath?_eq] at hpath
  cases houtput : o.output? with
  | some given =>
    left
    rw [houtput, Option.some_or] at hpath
    rw [houtput, hpath]
  | none =>
    right
    rw [houtput, Option.none_or] at hpath
    exact ⟨houtput, FileSystem.exists_isStem_of_read hread hpath⟩

theorem Options.IsOutput.slash_not_mem {path : String} (h : o.IsOutput path)
    (hnone : o.output? = none) : '/' ∉ path.toList := by
  rcases h with hsome | ⟨-, name, hends, hstem⟩
  · cases hnone.symm.trans hsome
  · exact hstem.slash_not_mem hends.2.1

theorem exists_onlyWrote_of_status (h : (course fs o.input o.output?).ending.status = 0) :
    ∃ content L path place, fs.read o.input = .ok content ∧
      (assembleSource .standard content).result = .ok L ∧ o.outputPath? = some path ∧
      fs.locateNew path = .ok place ∧
      fs.OnlyWrote place (Image.render L.bytes).toUTF8
        ((course fs o.input o.output?).ending.files fs) ∧
      ((course fs o.input o.output?).ending.files fs).read path =
        .ok (Image.render L.bytes).toUTF8 := by
  obtain ⟨n, path, files, hending⟩ := Ending.status_eq_zero_iff.1 h
  obtain ⟨content, L, hread, hL, hpath, hwrite, -⟩ := ending_eq_wrote_iff.1 hending
  obtain ⟨place, hplace, rfl⟩ := FileSystem.write_eq_ok_iff.1 hwrite
  rw [hending]
  refine ⟨content, L, path, place, hread, hL, ?_, hplace, FileSystem.onlyWrote_put hplace _,
    FileSystem.read_put hplace _⟩
  rw [o.outputPath?_eq, hpath]

theorem status_eq_zero_iff_assembles :
    (course fs o.input o.output?).ending.status = 0 ↔
      (∃ (text : String) (L : Listing), fs.read o.input = .ok text.toUTF8 ∧
        (assembleSource .standard text.toUTF8).result = .ok L) ∧
      ∃ path place, o.outputPath? = some path ∧ fs.locateNew path = .ok place := by
  constructor
  · intro h
    obtain ⟨content, L, path, place, hread, hL, hpath, hplace, -⟩ := exists_onlyWrote_of_status h
    obtain ⟨text, rfl⟩ := exists_text_of_assembleSource hL
    exact ⟨⟨text, L, hread, hL⟩, path, place, hpath, hplace⟩
  · rintro ⟨⟨text, L, hread, hL⟩, path, place, hpath, hplace⟩
    rw [o.outputPath?_eq] at hpath
    have hwrite : fs.write path (Image.render L.bytes).toUTF8 =
        .ok (fs.put place (.file (Image.render L.bytes).toUTF8)) :=
      FileSystem.write_eq_ok_iff.2 ⟨place, hplace, rfl⟩
    apply Ending.status_eq_zero_iff.2
    exact ⟨L.size, path, _, ending_eq_wrote_iff.2 ⟨_, L, hread, hL, hpath, hwrite, rfl⟩⟩

/-- A run of accepted arguments exits with 0 or 1. With 1, no file is created or changed. With 0,
one place has been written, where the options say or else in the working directory under the stem of
the name that the input ends in; it holds, and is read as, the image of what the input held before.
It is 0 just when the input is a file in UTF-8 that assembles and the output can be created; in a
tree there is always a name for it. -/
theorem run_allOrNothing {args : List String} (h : Request.ofArguments args = .ok (.assemble o))
    (stamp : String) (fs : FileSystem) :
    ((run stamp args fs).status = 0 ∨ (run stamp args fs).status = 1) ∧
    ((run stamp args fs).status = 1 → (run stamp args fs).files = fs) ∧
    ((run stamp args fs).status = 0 → ∃ content L path place, fs.read o.input = .ok content ∧
      (assembleSource .standard content).result = .ok L ∧
      o.outputPath? = some path ∧ o.IsOutput path ∧
      fs.locateNew path = .ok place ∧
      (o.output? = none → place = fs.workingDirectory ++ [path]) ∧
      fs.OnlyWrote place (Image.render L.bytes).toUTF8 (run stamp args fs).files ∧
      (run stamp args fs).files.read path = .ok (Image.render L.bytes).toUTF8) ∧
    ((run stamp args fs).status = 0 ↔
      (∃ (text : String) (L : Listing), fs.read o.input = .ok text.toUTF8 ∧
        (assembleSource .standard text.toUTF8).result = .ok L) ∧
      ∃ path place, o.outputPath? = some path ∧ fs.locateNew path = .ok place) ∧
    (fs.IsTree → ∀ content, fs.read o.input = .ok content →
      ∃ path, o.outputPath? = some path ∧ o.IsOutput path) := by
  obtain ⟨hstatus, hfiles⟩ := run_status_files h stamp fs
  rw [hstatus, hfiles]
  refine ⟨Ending.status_eq_zero_or_one _, Ending.files_of_status_eq_one, fun hzero => ?_,
    status_eq_zero_iff_assembles, fun htree content hread => ?_⟩
  · obtain ⟨content, L, path, place, hread, hL, hpath, hplace, hwrote, hreads⟩ :=
      exists_onlyWrote_of_status hzero
    have houtput := o.isOutput_of_read hread hpath
    refine ⟨content, L, path, place, hread, hL, hpath, houtput, hplace, fun hnone => ?_, hwrote,
      hreads⟩
    exact FileSystem.locateNew_of_no_slash (houtput.slash_not_mem hnone) hplace
  · obtain ⟨path, hpath⟩ : ∃ path, o.outputPath? = some path := by
      obtain ⟨stem, hstem⟩ := htree.exists_stem_of_read hread
      rw [o.outputPath?_eq]
      cases o.output? with
      | some path => exact ⟨path, rfl⟩
      | none => exact ⟨stem, hstem⟩
    exact ⟨path, hpath, o.isOutput_of_read hread hpath⟩

theorem read_home : FileSystem.home.read "p" = .ok "LDA 3\nHLT".toUTF8 := by
  cbv

theorem locateNew_home : FileSystem.home.locateNew "p" = .ok ["w", "p"] := by
  cbv

theorem assembleSource_home : (assembleSource .standard "LDA 3\nHLT".toUTF8).result =
    .ok ⟨[⟨⟨1, "LDA 3"⟩, 0, [0x13]⟩, ⟨⟨2, "HLT"⟩, 1, [0x50]⟩]⟩ := by
  cbv

/-- A program with an extension gives the file without it and stays as it is; one without an
extension is overwritten by its own image, or left alone if the output is named; and a file that
does not assemble leaves all of them as they were. -/
theorem run_allOrNothing_home :
    FileSystem.home.IsTree ∧
    Request.ofArguments ["p.s"] = .ok (.assemble ⟨"p.s", none, 0, false, false⟩) ∧
    (∃ path, (⟨"p.s", none, 0, false, false⟩ : Options).outputPath? = some path ∧
      (⟨"p.s", none, 0, false, false⟩ : Options).IsOutput path) ∧
    (run "" ["p.s"] .home).status = 0 ∧
    FileSystem.home.OnlyWrote ["w", "p"] (Image.render [0x50]).toUTF8
      (run "" ["p.s"] .home).files ∧
    (run "" ["p.s"] .home).files.node? ["w", "p.s"] = some (.file "HLT".toUTF8) ∧
    (run "" ["p", "-v"] .home).status = 0 ∧
    FileSystem.home.OnlyWrote ["w", "p"] (Image.render [0x13, 0x50]).toUTF8
      (run "" ["p", "-v"] .home).files ∧
    (run "" ["p", "-o", "r"] .home).status = 0 ∧
    FileSystem.home.OnlyWrote ["w", "r"] (Image.render [0x13, 0x50]).toUTF8
      (run "" ["p", "-o", "r"] .home).files ∧
    (run "" ["q", "-d"] .home).status = 1 ∧
    (run "" ["q", "-d"] .home).files = .home := by
  have hext : Request.ofArguments ["p.s"] =
      .ok (.assemble ⟨"p.s", none, 0, false, false⟩) := by cbv
  have hprog : Request.ofArguments ["p", "-v"] =
      .ok (.assemble ⟨"p", none, 1, false, false⟩) := by cbv
  have hnamed : Request.ofArguments ["p", "-o", "r"] =
      .ok (.assemble ⟨"p", some "r", 0, false, false⟩) := by cbv
  have hbad : Request.ofArguments ["q", "-d"] =
      .ok (.assemble ⟨"q", none, 0, false, true⟩) := by cbv
  have hextRead : FileSystem.home.read "p.s" = .ok "HLT".toUTF8 := by cbv
  have hbadRead : FileSystem.home.read "q" = .ok "?\n".toUTF8 := by cbv
  have hextL : (assembleSource .standard "HLT".toUTF8).result =
      .ok ⟨[⟨⟨1, "HLT"⟩, 0, [0x50]⟩]⟩ := by cbv
  have hbadResult : (assembleSource .standard "?\n".toUTF8).result =
      .error (.fault ⟨1, .unrecognized "?"⟩) := by cbv
  have hnamedPlace : FileSystem.home.locateNew "r" = .ok ["w", "r"] := by cbv
  have hwrites {args : List String} {o : Options} {text path : String} {L : Listing} {place : Place}
      (h : Request.ofArguments args = .ok (.assemble o))
      (hread : FileSystem.home.read o.input = .ok text.toUTF8)
      (hL : (assembleSource .standard text.toUTF8).result = .ok L)
      (hpath : o.outputPath? = some path) (hplace : FileSystem.home.locateNew path = .ok place) :
      (run "" args .home).status = 0 ∧ FileSystem.home.OnlyWrote place
        (Image.render L.bytes).toUTF8 (run "" args .home).files := by
    obtain ⟨-, -, hwritten, hzero, -⟩ := run_allOrNothing h "" .home
    have hstatus := hzero.2 ⟨⟨text, L, hread, hL⟩, path, place, hpath, hplace⟩
    obtain ⟨content, L', path', place', hread', hL', hpath', -, hplace', -, hwrote, -⟩ :=
      hwritten hstatus
    obtain rfl := Except.ok.inj (hread.symm.trans hread')
    obtain rfl := Except.ok.inj (hL.symm.trans hL')
    obtain rfl := Option.some.inj (hpath.symm.trans hpath')
    obtain rfl := Except.ok.inj (hplace.symm.trans hplace')
    exact ⟨hstatus, hwrote⟩
  obtain ⟨hextStatus, hextWrote⟩ := hwrites hext hextRead hextL (by cbv) locateNew_home
  obtain ⟨hstatus, hwrote⟩ := hwrites hprog read_home assembleSource_home (by cbv) locateNew_home
  obtain ⟨hnamedStatus, hnamedWrote⟩ :=
    hwrites hnamed read_home assembleSource_home rfl hnamedPlace
  have hextNode : FileSystem.home.node? ["w", "p.s"] = some (.file "HLT".toUTF8) := by
    simp [FileSystem.node?, FileSystem.home, List.lookup_cons]
  have hextSame := (hextWrote.others ["w", "p.s"] (by decide)).trans hextNode
  have hextName := (run_allOrNothing hext "" .home).2.2.2.2 FileSystem.home_isTree _ hextRead
  obtain ⟨hzeroOrOne, hsame, hbadWritten, -⟩ := run_allOrNothing hbad "" .home
  have hfails : (run "" ["q", "-d"] .home).status = 1 := by
    refine hzeroOrOne.resolve_left fun hbadZero => ?_
    obtain ⟨content, L, -, -, hcontent, hL', -⟩ := hbadWritten hbadZero
    obtain rfl := Except.ok.inj (hbadRead.symm.trans hcontent)
    cases hbadResult.symm.trans hL'
  exact ⟨FileSystem.home_isTree, hext, hextName, hextStatus, hextWrote, hextSame, hstatus, hwrote,
    hnamedStatus, hnamedWrote, hfails, hsame hfails⟩

end NibbleAsm.Command
