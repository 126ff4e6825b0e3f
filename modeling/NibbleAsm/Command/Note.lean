import NibbleAsm.Command.Options
import NibbleAsm.Statement
import NibbleAsm.FileSystem

/-! What the command logs: the events of the assembly and its own notes, each under the name of the
part that speaks. -/

namespace NibbleAsm.Command

inductive Failure where
  | openInput (path : String) (e : OsError)
  | readInput (path : String) (e : OsError)
  | decodeInput (path : String) (e : Source.ReadError)
  | assembly (path : String) (f : Fault)
  | unnamedOutput (path : String)
  | openOutput (path : String) (e : OsError)
  | writeOutput (path : String) (e : OsError)
deriving DecidableEq, Repr

def Failure.message : Failure → String
  | .openInput path e => s!"unable to open input file `{path}`: {e.message}"
  | .readInput path e => s!"unable to read input file `{path}`: {e.message}"
  | .decodeInput path e => s!"unable to read input file `{path}`: {e.message}"
  | .assembly path f => s!"{path}: {f.message}"
  | .unnamedOutput path => s!"cannot derive an output name from `{path}`"
  | .openOutput path e => s!"unable to open output file `{path}`: {e.message}"
  | .writeOutput path e => s!"unable to write to output file `{path}`: {e.message}"

inductive Note where
  | arguments (o : Options)
  | event (e : Event)
  | failed (f : Failure)
  | wrote (bytes : Nat) (path : String)
deriving DecidableEq, Repr

namespace Note

def level : Note → Level
  | .arguments _ => .debug
  | .event e => e.level
  | .failed _ => .error
  | .wrote _ _ => .info

def message : Note → String
  | .arguments o =>
    s!"Arguments:\n\tVerbosity: {o.limit.name}\n\tPrint: {o.print}\n\tOutfile: " ++
      o.output?.getD "None" ++ s!"\n\tInfile: {o.input}"
  | .event e => e.message
  | .failed f => s!"fatal: {f.message}"
  | .wrote bytes path => s!"wrote {bytes} byte(s) to `{path}`"

def speaker : Note → String
  | .event (.sourceRead _) => "nasm8::assembler::lexer"
  | .event (.blankSkipped _) => "nasm8::assembler::cursor"
  | .event _ => "nasm8::assembler::encoder"
  | _ => "nasm8"

/-- The line a note is logged as, after a stamp that tells the time. -/
def render (stamp : String) (n : Note) : String :=
  stamp ++ s!"[{n.speaker}][{n.level.name}] {n.message}\n"

end Note

end NibbleAsm.Command
