import Mathlib.Data.Nat.Notation
import NibbleAsm.Command

/-! The course of a run: what it logs up to the end of assembly, the listing if there is one, and
how it ends. It depends on the files, on the input and on where the output is to go; the other
options only decide what is said about it (`perform_script`). -/

namespace NibbleAsm.Command

/-- How a run ends: it gives up and leaves the files alone, or it has written the image. -/
inductive Ending where
  | failed (f : Failure)
  | wrote (bytes : ℕ) (path : String) (files : FileSystem)

namespace Ending

def status : Ending → UInt8
  | .failed _ => 1
  | .wrote _ _ _ => 0

def note : Ending → Note
  | .failed f => .failed f
  | .wrote bytes path _ => .wrote bytes path

def files (fs : FileSystem) : Ending → FileSystem
  | .failed _ => fs
  | .wrote _ _ files => files

end Ending

structure Course where
  before : List Event
  listing? : Option Listing
  ending : Ending

def Course.notes (c : Course) : List Note :=
  c.before.map Note.event ++ [c.ending.note]

def closing (fs : FileSystem) (input : String) (path? : Option String) (L : Listing) : Ending :=
  match path? with
  | none => .failed (.unnamedOutput input)
  | some path =>
    match fs.write path (Image.render L.bytes).toUTF8 with
    | .error (.opening e) => .failed (.openOutput path e)
    | .error (.transfer e) => .failed (.writeOutput path e)
    | .ok files => .wrote L.size path files

def course (fs : FileSystem) (input : String) (output? : Option String) : Course :=
  match fs.read input with
  | .error (.opening e) => ⟨[], none, .failed (.openInput input e)⟩
  | .error (.transfer e) => ⟨[], none, .failed (.readInput input e)⟩
  | .ok content =>
    let run := assembleSource .standard content
    match run.result with
    | .error (.unreadable e) => ⟨run.log, none, .failed (.decodeInput input e)⟩
    | .error (.fault f) => ⟨run.log, none, .failed (.assembly input f)⟩
    | .ok L => ⟨run.log, some L, closing fs input (output?.or (Path.stem? input)) L⟩

theorem Script.perform_sayAll (outs : List Output) (next : Script) (fs : FileSystem) :
    (sayAll outs next).perform fs =
      { next.perform fs with outputs := outs ++ (next.perform fs).outputs } := by
  induction outs with
  | nil => rfl
  | cons out outs ih =>
    change (Script.say out (sayAll outs next)).perform fs = _
    simp only [perform, ih, List.cons_append]

namespace Options

variable (o : Options) (fs : FileSystem)

theorem outputPath?_eq : o.outputPath? = o.output?.or (Path.stem? o.input) := by
  unfold outputPath?
  cases o.output? <;> rfl

theorem perform_writeScript (L : Listing) :
    (o.writeScript L).perform fs =
      let ending := closing fs o.input (o.output?.or (Path.stem? o.input)) L
      ⟨ending.status, [.note ending.note], ending.files fs⟩ := by
  unfold writeScript closing
  rw [outputPath?_eq]
  cases o.output?.or (Path.stem? o.input) with
  | none => rfl
  | some path =>
    simp only [Script.perform]
    cases fs.write path (Image.render L.bytes).toUTF8 with
    | ok files => rfl
    | error e => cases e <;> rfl

/-- A run says what its options ask for, in the order of its course, and ends as the course does. -/
theorem perform_script :
    o.script.perform fs =
      let c := course fs o.input o.output?
      ⟨c.ending.status,
        .note (.arguments o) :: (c.before.map (fun e => .note (.event e)) ++
          c.listing?.elim [] o.reports ++ [.note c.ending.note]),
        c.ending.files fs⟩ := by
  unfold script course
  simp only [Script.perform]
  cases fs.read o.input with
  | error e => cases e <;> rfl
  | ok content =>
    simp only [assembleScript, Script.perform_sayAll]
    cases (assembleSource .standard content).result with
    | error e =>
      cases e <;> simp [Script.fail, Script.perform, Ending.status, Ending.note, Ending.files]
    | ok L => simp [Script.perform_sayAll, perform_writeScript]

end Options

theorem run_of_options {args : List String} {o : Options}
    (h : Request.ofArguments args = .ok (.assemble o)) (stamp : String) (fs : FileSystem) :
    run stamp args fs =
      let outcome := o.script.perform fs
      { status := outcome.status
        standard := String.join (outcome.outputs.map (Output.toStandard o.limit stamp))
        error := String.join (outcome.outputs.map Output.toError)
        files := outcome.files } := by
  unfold run plan
  rw [h]

theorem run_status_files {args : List String} {o : Options}
    (h : Request.ofArguments args = .ok (.assemble o)) (stamp : String) (fs : FileSystem) :
    (run stamp args fs).status = (course fs o.input o.output?).ending.status ∧
      (run stamp args fs).files = (course fs o.input o.output?).ending.files fs := by
  rw [run_of_options h, o.perform_script fs]
  exact ⟨rfl, rfl⟩

theorem Ending.status_eq_zero_iff {e : Ending} :
    e.status = 0 ↔ ∃ bytes path files, e = .wrote bytes path files := by
  cases e <;> simp [status]

theorem closing_eq_wrote_iff {fs files : FileSystem} {input path : String} {path? : Option String}
    {L : Listing} {n : ℕ} :
    closing fs input path? L = .wrote n path files ↔
      path? = some path ∧ fs.write path (Image.render L.bytes).toUTF8 = .ok files ∧
        L.size = n := by
  unfold closing
  cases path? with
  | none => simp
  | some path' =>
    simp only [Option.some.injEq]
    constructor
    · intro h
      split at h
      · cases h
      · cases h
      next hwrite =>
        obtain ⟨hn, rfl, rfl⟩ := Ending.wrote.inj h
        exact ⟨rfl, hwrite, hn⟩
    · rintro ⟨rfl, hwrite, rfl⟩
      rw [hwrite]

/-- A file is written just when the input is read and assembled and the output can be written. -/
theorem ending_eq_wrote_iff {fs files : FileSystem} {input path : String} {output? : Option String}
    {n : ℕ} :
    (course fs input output?).ending = .wrote n path files ↔
      ∃ content L, fs.read input = .ok content ∧ (assembleSource .standard content).result = .ok L ∧
        output?.or (Path.stem? input) = some path ∧
        fs.write path (Image.render L.bytes).toUTF8 = .ok files ∧ L.size = n := by
  unfold course
  cases fs.read input with
  | error e => cases e <;> simp
  | ok content =>
    dsimp only
    cases hrun : (assembleSource .standard content).result with
    | error e => cases e <;> simp [hrun]
    | ok L => simp [hrun, closing_eq_wrote_iff]

end NibbleAsm.Command
