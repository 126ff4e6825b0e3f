import NibbleAsm.Log
import NibbleAsm.Source
import NibbleAsm.Statement

/-! The assembler: one pass over the lines, one instruction at a time. A step that fails has taken
its lines all the same and leaves the address where it was; a run stops at the first fault and
then gives no listing. -/

namespace NibbleAsm

structure Assembler where
  table : Table
  feed : Feed
  /-- The number of bytes given so far. -/
  address : Nat
  /-- What a run has gathered; a single step adds nothing to it. -/
  listing : Listing

/-- The outcome of one step: what it gave or a fault, what was logged, and the assembler as it is
left. -/
structure Step (α : Type) where
  result : Except Fault α
  log : List Event
  after : Assembler

namespace Assembler

def start (table : Table) (lines : List Line) : Assembler :=
  ⟨table, ⟨lines⟩, 0, ⟨[]⟩⟩

/-- The step that begins with line `l`, where `rest` follows that line. -/
def stepLine (a : Assembler) (l : Line) (rest : Feed) : Step Emission :=
  let encoded := (l.statement a.table).encode l rest
  let skips := Event.ofSkipped encoded.skipped
  match encoded.bytes with
  | .error f => ⟨.error f, skips, { a with feed := encoded.rest }⟩
  | .ok bytes =>
    let e : Emission := ⟨l, a.address, bytes⟩
    ⟨.ok e, skips ++ [.emitted e],
      { a with feed := encoded.rest, address := a.address + bytes.length }⟩

/-- The next instruction, or nothing at the end of the lines. -/
def step (a : Assembler) : Step (Option Emission) :=
  match a.feed.remaining with
  | [] => ⟨.ok none, [], a⟩
  | l :: ls =>
    let s := a.stepLine l ⟨ls⟩
    ⟨s.result.map some, s.log, s.after⟩

theorem suffix_stepLine (a : Assembler) (l : Line) (rest : Feed) :
    (a.stepLine l rest).after.feed.remaining <:+ rest.remaining := by
  have h := (l.statement a.table).suffix_encode l rest
  unfold stepLine
  dsimp only
  split <;> exact h

/-- Every emission up to the end of the lines, or the first fault. -/
def collect : Assembler → Logged (Except Fault (List Emission))
  | ⟨_, ⟨[]⟩, _, _⟩ => ⟨.ok [], []⟩
  | ⟨table, ⟨l :: ls⟩, address, listing⟩ =>
    let s := stepLine ⟨table, ⟨l :: ls⟩, address, listing⟩ l ⟨ls⟩
    match s.result with
    | .error f => ⟨.error f, s.log⟩
    | .ok e =>
      let rest := collect s.after
      ⟨rest.result.map (e :: ·), s.log ++ rest.log⟩
termination_by a => a.feed.size
decreasing_by
  have := (suffix_stepLine ⟨table, ⟨l :: ls⟩, address, listing⟩ l ⟨ls⟩).length_le
  simp only [Feed.size, List.length_cons] at this ⊢
  omega

/-- Assembles what is left and gathers it in the listing. -/
def run (a : Assembler) : Logged (Except Fault Listing) :=
  let collected := a.collect
  match collected.result with
  | .error f => ⟨.error f, collected.log⟩
  | .ok emissions =>
    let listing : Listing := ⟨a.listing.emissions ++ emissions⟩
    ⟨.ok listing, collected.log ++ [.assembled listing.emissions.length listing.size]⟩

theorem run_result (a : Assembler) :
    a.run.result = a.collect.result.map fun es => ⟨a.listing.emissions ++ es⟩ := by
  rw [run]
  cases a.collect.result with
  | error f => rfl
  | ok es => rfl

end Assembler

def assembleLines (table : Table) (lines : List Line) : Logged (Except Fault Listing) :=
  (Assembler.start table lines).run

def assemble (texts : List String) : Except Fault (List UInt8) :=
  (assembleLines .standard (Line.numbered texts)).result.map Listing.bytes

def readSource (content : ByteArray) : Logged (Except Source.ReadError (List Line)) :=
  match Source.read content with
  | .error e => ⟨.error e, []⟩
  | .ok lines => ⟨.ok lines, [.sourceRead lines.length]⟩

inductive SourceError where
  | unreadable (e : Source.ReadError)
  | fault (f : Fault)
deriving DecidableEq, Repr

def assembleSource (table : Table) (content : ByteArray) : Logged (Except SourceError Listing) :=
  let source := readSource content
  match source.result with
  | .error e => ⟨.error (.unreadable e), source.log⟩
  | .ok lines =>
    let run := assembleLines table lines
    ⟨run.result.mapError .fault, source.log ++ run.log⟩

end NibbleAsm
