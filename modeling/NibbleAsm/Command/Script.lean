import NibbleAsm.Command.Note

/-! What a run of the command does, as data: texts it shows, files it reads and writes, and the
status it exits with. `Script.perform` carries it out on a file system that is a value. -/

namespace NibbleAsm.Command

inductive Output where
  | note (n : Note)
  | text (s : String)
  | complaint (s : String)
deriving DecidableEq, Repr

inductive Script where
  | exit (status : UInt8)
  | say (out : Output) (next : Script)
  | read (path : String) (next : Except AccessError ByteArray → Script)
  | write (path : String) (content : ByteArray) (next : Except AccessError Unit → Script)

structure Outcome where
  status : UInt8
  outputs : List Output
  files : FileSystem

namespace Script

def perform : Script → FileSystem → Outcome
  | .exit status, fs => ⟨status, [], fs⟩
  | .say out next, fs =>
    let after := next.perform fs
    { after with outputs := out :: after.outputs }
  | .read path next, fs => (next (fs.read path)).perform fs
  | .write path content next, fs =>
    match fs.write path content with
    | .error e => (next (.error e)).perform fs
    | .ok fs' => (next (.ok ())).perform fs'

def sayAll (outs : List Output) (next : Script) : Script :=
  outs.foldr .say next

def fail (f : Failure) : Script :=
  .say (.note (.failed f)) (.exit 1)

end Script

namespace Output

def toStandard (limit : Level) (stamp : String) : Output → String
  | .note n => if n.level.shownAt (some limit) then n.render stamp else ""
  | .text s => s
  | .complaint _ => ""

def toError : Output → String
  | .complaint s => s
  | _ => ""

end Output

end NibbleAsm.Command
