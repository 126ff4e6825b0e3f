import NibbleAsm.Command
import Std.Time

/-! The program: carries out the command's script on the files of the machine. -/

namespace NibbleAsm.Command

def osError : IO.Error → OsError
  | .noFileOrDirectory _ code text => ⟨code.toNat, text⟩
  | .inappropriateType _ code text => ⟨code.toNat, text⟩
  | .permissionDenied _ code text => ⟨code.toNat, text⟩
  | .alreadyExists _ code text => ⟨code.toNat, text⟩
  | .resourceExhausted _ code text => ⟨code.toNat, text⟩
  | .invalidArgument _ code text => ⟨code.toNat, text⟩
  | .resourceBusy code text => ⟨code.toNat, text⟩
  | .hardwareFault code text => ⟨code.toNat, text⟩
  | .otherError code text => ⟨code.toNat, text⟩
  | e => ⟨0, toString e⟩

/-- Opens a file and uses it, and tells which of the two failed. -/
def access {α : Type} (path : String) (mode : IO.FS.Mode) (use : IO.FS.Handle → IO α) :
    IO (Except AccessError α) := do
  match ← (IO.FS.Handle.mk path mode).toBaseIO with
  | .error e => return .error (.opening (osError e))
  | .ok handle =>
    match ← (use handle).toBaseIO with
    | .error e => return .error (.transfer (osError e))
    | .ok a => return .ok a

def timeStamp : IO String := do
  return (← Std.Time.DateTime.now).format "'['uuuu-MM-dd']['HH:mm:ss']'"

def Script.performIO (limit : Level) : Script → IO UInt32
  | .exit status => return status.toUInt32
  | .say out next => do
    IO.print (out.toStandard limit (← timeStamp))
    IO.eprint out.toError
    next.performIO limit
  | .read path next => do
    (next (← access path .read IO.FS.Handle.readBinToEnd)).performIO limit
  | .write path content next => do
    (next (← access path .write (·.write content))).performIO limit

end NibbleAsm.Command

def main (args : List String) : IO UInt32 :=
  let p := NibbleAsm.Command.plan args
  p.script.performIO p.limit
