import Mathlib
import NibbleAsm.Proofs.Arguments
import NibbleAsm.Proofs.Course
import NibbleAsm.Proofs.FileSystem

/-! Reports. How much a run says, and what it prints besides, changes neither its end nor the files.
Its standard output is the log up to the end of assembly, the reports that were asked for, and the
last line of the log; less detail shows a part of what more detail shows. -/

namespace NibbleAsm.Command

namespace Note

def shown (limit : Level) (notes : List Note) : List Note :=
  notes.filter fun n => n.level.shownAt (some limit)

/-- The stamp, who speaks, the level, and the message. -/
def line (stamp : String) (n : Note) : String :=
  stamp ++ "[" ++ n.speaker ++ "][" ++ n.level.name ++ "] " ++ n.message ++ "\n"

def logged (stamp : String) (notes : List Note) : String :=
  String.join (notes.map (line stamp))

theorem render_eq_line (stamp : String) (n : Note) : n.render stamp = n.line stamp := by
  simp only [render, line, String.append_assoc]
  rfl

theorem line_failed (stamp : String) (f : Failure) :
    (failed f).line stamp = stamp ++ "[nasm8][ERROR] fatal: " ++ f.message ++ "\n" := by
  have hhead : "[nasm8][ERROR] fatal: " =
      "[" ++ (failed f).speaker ++ "][" ++ (failed f).level.name ++ "] " ++ "fatal: " := rfl
  have hmessage : (failed f).message = "fatal: " ++ f.message := rfl
  rw [line, hmessage, hhead]
  simp only [String.append_assoc]

theorem logged_append (stamp : String) (notes notes' : List Note) :
    logged stamp (notes ++ notes') = logged stamp notes ++ logged stamp notes' := by
  simp [logged]

theorem exists_logged_of_mem {n : Note} {notes : List Note} (h : n ∈ notes) (stamp : String) :
    ∃ front back, logged stamp notes = front ++ n.line stamp ++ back := by
  obtain ⟨before, after, rfl⟩ := List.append_of_mem h
  refine ⟨logged stamp before, logged stamp after, ?_⟩
  rw [logged_append, String.append_assoc]
  simp [logged]

theorem shown_append (limit : Level) (notes notes' : List Note) :
    shown limit (notes ++ notes') = shown limit notes ++ shown limit notes' :=
  List.filter_append ..

/-- A limit that shows less shows the same of what a wider one has let through. -/
theorem shown_shown {limit wider : Level} (h : limit.detail ≤ wider.detail) (notes : List Note) :
    shown limit (shown wider notes) = shown limit notes := by
  unfold shown
  rw [List.filter_filter]
  apply List.filter_congr
  intro n _
  simp only [Level.shownAt, Option.any_some]
  by_cases hn : n.level.detail ≤ limit.detail
  · simp [hn, Nat.le_trans hn h]
  · simp [hn]

theorem countP_error_shown (limit : Level) (notes : List Note) :
    (shown limit notes).countP (·.level = .error) = notes.countP (·.level = .error) := by
  unfold shown
  rw [List.countP_filter]
  apply List.countP_congr
  intro n _
  by_cases hn : n.level = .error
  · simp [hn]
  · simp [hn]

end Note

/-- Of notes that are said, standard output holds the lines of those that the limit shows. -/
theorem standard_notes (limit : Level) (stamp : String) (notes : List Note) :
    String.join (notes.map fun n => Output.toStandard limit stamp (.note n)) =
      Note.logged stamp (Note.shown limit notes) := by
  induction notes with
  | nil => rfl
  | cons n notes ih =>
    rw [List.map_cons, String.join_cons, ih]
    unfold Note.shown
    by_cases hn : n.level.shownAt (some limit) = true
    · simp [Output.toStandard, hn, Note.logged, Note.render_eq_line]
    · simp [Output.toStandard, hn]

namespace Options

variable (o : Options)

def printed (L : Listing) : String :=
  (if o.grid then L.grid else "") ++ if o.print then Image.render L.bytes ++ "\n" else ""

theorem standard_reports (limit : Level) (stamp : String) (L : Listing) :
    String.join ((o.reports L).map (Output.toStandard limit stamp)) = o.printed L := by
  unfold reports printed
  cases o.grid <;> cases o.print <;> simp [Output.toStandard]

theorem detail_limit : o.limit.detail = min o.verbosity 3 + 1 := by
  obtain ⟨input, output?, verbosity, print, grid⟩ := o
  rcases verbosity with _ | _ | _ | n
  · rfl
  · rfl
  · rfl
  · simp [limit, Level.detail]

theorem shown_arguments :
    Note.shown o.limit [.arguments o] = if 3 ≤ o.verbosity then [.arguments o] else [] := by
  have hdebug : Level.debug.detail ≤ o.limit.detail ↔ 3 ≤ o.verbosity := by
    rw [o.detail_limit, Level.detail]
    omega
  by_cases h : 3 ≤ o.verbosity
  · simp [Note.shown, Note.level, Level.shownAt, hdebug, h]
  · simp [Note.shown, Note.level, Level.shownAt, hdebug, h]

end Options

namespace Course

variable (c : Course)

def standard (stamp : String) (o : Options) : String :=
  Note.logged stamp ((if 3 ≤ o.verbosity then [.arguments o] else []) ++
      Note.shown o.limit (c.before.map Note.event)) ++
    c.listing?.elim "" o.printed ++ Note.logged stamp (Note.shown o.limit [c.ending.note])

theorem countP_error_notes :
    c.notes.countP (·.level = .error) = if c.ending.status = 0 then 0 else 1 := by
  have hbefore : (c.before.map Note.event).countP (·.level = .error) = 0 := by
    rw [List.countP_map]
    apply List.countP_eq_zero.2
    intro e _
    cases e <;> simp [Note.level, Event.level]
  unfold notes
  rw [List.countP_append, hbefore]
  cases c.ending <;> simp [Ending.note, Ending.status, Note.level]

end Course

theorem run_standard {args : List String} {o : Options}
    (h : Request.ofArguments args = .ok (.assemble o)) (stamp : String) (fs : FileSystem) :
    (run stamp args fs).standard = (course fs o.input o.output?).standard stamp o := by
  rw [run_of_options h, o.perform_script fs]
  generalize course fs o.input o.output? = c
  have hreports : String.join ((c.listing?.elim [] o.reports).map
      (Output.toStandard o.limit stamp)) = c.listing?.elim "" o.printed := by
    cases c.listing? with
    | none => rfl
    | some L => exact o.standard_reports o.limit stamp L
  have hbefore := standard_notes o.limit stamp (.arguments o :: c.before.map Note.event)
  have hlast := standard_notes o.limit stamp [c.ending.note]
  rw [← List.singleton_append, Note.shown_append, o.shown_arguments] at hbefore
  unfold Course.standard
  rw [← hbefore, ← hlast, ← hreports]
  simp [String.append_assoc, Function.comp_def]

theorem Course.exists_line_of_mem {c : Course} {n : Note} {o : Options}
    (h : n ∈ Note.shown o.limit c.notes) (stamp : String) :
    ∃ front back, c.standard stamp o = front ++ n.line stamp ++ back := by
  unfold Course.notes at h
  rw [Note.shown_append] at h
  unfold Course.standard
  rcases List.mem_append.1 h with hbefore | hlast
  · obtain ⟨front, back, hlines⟩ := Note.exists_logged_of_mem hbefore stamp
    refine ⟨Note.logged stamp (if 3 ≤ o.verbosity then [.arguments o] else []) ++ front,
      back ++ (c.listing?.elim "" o.printed ++
        Note.logged stamp (Note.shown o.limit [c.ending.note])), ?_⟩
    rw [Note.logged_append, hlines]
    simp only [String.append_assoc]
  · obtain ⟨front, back, hlines⟩ := Note.exists_logged_of_mem hlast stamp
    rw [hlines, ← String.append_assoc, ← String.append_assoc]
    exact ⟨_, back, rfl⟩

/-- The output of a run that fails ends in the line of its failure, whatever the limit. -/
theorem Course.exists_standard_of_failed {c : Course} (h : c.ending.status ≠ 0) (stamp : String)
    (o : Options) :
    ∃ f front, c.ending = .failed f ∧
      c.standard stamp o = front ++ (stamp ++ "[nasm8][ERROR] fatal: " ++ f.message ++ "\n") := by
  cases hending : c.ending with
  | wrote bytes path files => simp [hending, Ending.status] at h
  | failed f =>
    have hshown : Note.logged stamp (Note.shown o.limit [(Ending.failed f).note]) =
        (Note.failed f).line stamp := by
      simp [Note.logged, Note.shown, Ending.note, Note.level]
    unfold Course.standard
    rw [hending, hshown, Note.line_failed]
    exact ⟨f, _, rfl, rfl⟩

/-- How often more detail is asked for and which reports are wanted is free, and no choice changes
the status or the files. Standard output is what the limit shows of the log up to the end of
assembly, the grid and the image as far as they are asked for, and what it shows of the rest of the
log, where all three parts come from the one course of the run; each note that is shown is a line of
it. The line on the arguments apart, a lower verbosity shows of the lines of a higher one just those
within its limit. One error is logged if the run fails, as the last line, and none otherwise. -/
theorem run_reporting (fs : FileSystem) (input : String) (output? : Option String) :
    (∀ (verbosity : ℕ) (print grid : Bool), ∃ args,
      Request.ofArguments args = .ok (.assemble ⟨input, output?, verbosity, print, grid⟩)) ∧
    ∀ (stamp : String) (args : List String) (o : Options),
      Request.ofArguments args = .ok (.assemble o) → o.input = input → o.output? = output? →
      (run stamp args fs).status = (course fs input output?).ending.status ∧
      (run stamp args fs).files = (course fs input output?).ending.files fs ∧
      (run stamp args fs).standard = (course fs input output?).standard stamp o ∧
      (∀ n ∈ Note.shown o.limit (course fs input output?).notes, ∃ front back,
        (run stamp args fs).standard = front ++ (stamp ++ "[" ++ n.speaker ++ "][" ++
          n.level.name ++ "] " ++ n.message ++ "\n") ++ back) ∧
      (∀ o' : Options, o.verbosity ≤ o'.verbosity →
        Note.shown o.limit (course fs input output?).notes =
          (Note.shown o'.limit (course fs input output?).notes).filter
            fun n => n.level.shownAt (some o.limit)) ∧
      (Note.shown o.limit (course fs input output?).notes).countP (·.level = .error) =
        (if (run stamp args fs).status = 0 then 0 else 1) ∧
      ((run stamp args fs).status ≠ 0 → ∃ f front, (course fs input output?).ending = .failed f ∧
        (run stamp args fs).standard =
          front ++ (stamp ++ "[nasm8][ERROR] fatal: " ++ f.message ++ "\n")) := by
  refine ⟨fun verbosity print grid => ⟨_, ofArguments_arguments _⟩, ?_⟩
  rintro stamp args o h rfl rfl
  obtain ⟨hstatus, hfiles⟩ := run_status_files h stamp fs
  have hstandard := run_standard h stamp fs
  refine ⟨hstatus, hfiles, hstandard, fun n hn => ?_, fun o' hverbosity => ?_, ?_,
    fun hfails => ?_⟩
  · rw [hstandard]
    exact Course.exists_line_of_mem hn stamp
  · have hdetail : o.limit.detail ≤ o'.limit.detail := by
      rw [o.detail_limit, o'.detail_limit]
      omega
    exact (Note.shown_shown hdetail _).symm
  · rw [Note.countP_error_shown, Course.countP_error_notes, hstatus]
  · rw [hstatus] at hfails
    rw [hstandard]
    exact Course.exists_standard_of_failed hfails stamp o

/-- A program with its image and no log, the same one with its log, and a file that fails. -/
theorem run_reporting_home :
    Request.ofArguments ["-p", "p"] = .ok (.assemble ⟨"p", none, 0, true, false⟩) ∧
    Request.ofArguments ["p", "-vv"] = .ok (.assemble ⟨"p", none, 2, false, false⟩) ∧
    (run "[t]" ["-p", "p"] .home).status = (run "[t]" ["p", "-vv"] .home).status ∧
    (run "[t]" ["-p", "p"] .home).files = (run "[t]" ["p", "-vv"] .home).files ∧
    (run "[t]" ["-p", "p"] .home).standard = Image.render [0x13, 0x50] ++ "\n" ∧
    (run "[t]" ["p", "-vv"] .home).standard =
      "[t][nasm8::assembler::encoder][INFO] assembled 2 line(s) into 2 byte(s)\n" ++
      "[t][nasm8][INFO] wrote 2 byte(s) to `p`\n" ∧
    (run "[t]" ["q"] .home).status = 1 ∧
    (Note.shown .error (course .home "q" none).notes).countP (·.level = .error) = 1 ∧
    (run "[t]" ["q"] .home).standard =
      "[t][nasm8][ERROR] fatal: q: line 1: unrecognized opcode or token: '?'\n" := by
  have hprint : Request.ofArguments ["-p", "p"] =
      .ok (.assemble ⟨"p", none, 0, true, false⟩) := by cbv
  have hverbose : Request.ofArguments ["p", "-vv"] =
      .ok (.assemble ⟨"p", none, 2, false, false⟩) := by cbv
  have hfails : Request.ofArguments ["q"] = .ok (.assemble ⟨"q", none, 0, false, false⟩) := by cbv
  obtain ⟨hstatus, hfiles, hstandard, -⟩ :=
    (run_reporting .home "p" none).2 "[t]" ["-p", "p"] _ hprint rfl rfl
  obtain ⟨hstatus', hfiles', hstandard', -⟩ :=
    (run_reporting .home "p" none).2 "[t]" ["p", "-vv"] _ hverbose rfl rfl
  obtain ⟨hone, -, hqStandard, -, -, herrors, -⟩ :=
    (run_reporting .home "q" none).2 "[t]" ["q"] _ hfails rfl rfl
  have hlast : (course .home "p" none).ending.note = .wrote 2 "p" := by cbv
  have hlisting : (course .home "p" none).listing? =
      some ⟨[⟨⟨1, "LDA 3"⟩, 0, [0x13]⟩, ⟨⟨2, "HLT"⟩, 1, [0x50]⟩]⟩ := by cbv
  have hevents : (course .home "p" none).before =
      [.sourceRead 2, .emitted ⟨⟨1, "LDA 3"⟩, 0, [0x13]⟩, .emitted ⟨⟨2, "HLT"⟩, 1, [0x50]⟩,
        .assembled 2 2] := by cbv
  have hq : course .home "q" none =
      ⟨[.sourceRead 1], none, .failed (.assembly "q" ⟨1, .unrecognized "?"⟩)⟩ := by cbv
  have hqStatus : (run "[t]" ["q"] .home).status = 1 := by
    rw [hone, hq]
    rfl
  refine ⟨hprint, hverbose, hstatus.trans hstatus'.symm, hfiles.trans hfiles'.symm, ?_, ?_,
    hqStatus, ?_, ?_⟩
  · rw [hstandard, Course.standard, hlast, hlisting, hevents]
    rfl
  · rw [hstandard', Course.standard, hlast, hlisting, hevents]
    rfl
  · rw [hqStatus] at herrors
    exact herrors
  · rw [hqStandard, hq]
    rfl

end NibbleAsm.Command
