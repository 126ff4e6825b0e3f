import NibbleAsm.Assembler
import NibbleAsm.Command.Script
import NibbleAsm.Grid

/-! The command: assembles one input file by the standard table and writes the image to one output
file. The output is written only after everything else has succeeded, so a run that fails leaves
every file as it was. -/

namespace NibbleAsm.Command

def versionText : String :=
  "nasm8 0.1.0\n"

def helpText : String :=
  versionText ++
  "Nicolas 'Montessquio' Suarez <nsuarez@kernelstack.net>\n" ++
  "A line-oriented assembler for an 8-bit nibble-operand machine, emitting v3.0 hex words.\n" ++
  "\n" ++
  "USAGE:\n" ++
  "    nasm8 [FLAGS] [OPTIONS] <INPUT>\n" ++
  "\n" ++
  "FLAGS:\n" ++
  "    -h, --help       Prints help information\n" ++
  "    -p, --print      also prints the hex words image to STDOUT\n" ++
  "    -d               prints each line's address and bytes alongside the source to STDOUT\n" ++
  "    -V, --version    Prints version information\n" ++
  "    -v               Sets the level of verbosity\n" ++
  "\n" ++
  "OPTIONS:\n" ++
  "    -o <output>        write output to an outfile\n" ++
  "\n" ++
  "ARGS:\n" ++
  "    <INPUT>    Sets the input file to use\n"

def complaint (e : UsageError) : String :=
  s!"error: {e.message}\n\n" ++
    "USAGE:\n    nasm8 [FLAGS] [OPTIONS] <INPUT>\n\nFor more information try --help\n"

namespace Options

/-- Where the image goes: where the options say, or else a file in the working directory named for
the input. -/
def outputPath? (o : Options) : Option String :=
  match o.output? with
  | some path => some path
  | none => Path.stem? o.input

def reports (o : Options) (l : Listing) : List Output :=
  (if o.grid then [.text l.grid] else []) ++
    (if o.print then [.text (Image.render l.bytes ++ "\n")] else [])

def writeScript (o : Options) (l : Listing) : Script :=
  match o.outputPath? with
  | none => .fail (.unnamedOutput o.input)
  | some path =>
    .write path (Image.render l.bytes).toUTF8 fun
      | .error (.opening e) => .fail (.openOutput path e)
      | .error (.transfer e) => .fail (.writeOutput path e)
      | .ok () => .say (.note (.wrote l.size path)) (.exit 0)

def assembleScript (o : Options) (content : ByteArray) : Script :=
  let run := assembleSource .standard content
  Script.sayAll (run.log.map fun e => .note (.event e)) <|
    match run.result with
    | .error (.unreadable e) => .fail (.decodeInput o.input e)
    | .error (.fault f) => .fail (.assembly o.input f)
    | .ok l => Script.sayAll (o.reports l) (o.writeScript l)

def script (o : Options) : Script :=
  .say (.note (.arguments o)) <|
    .read o.input fun
      | .error (.opening e) => .fail (.openInput o.input e)
      | .error (.transfer e) => .fail (.readInput o.input e)
      | .ok content => o.assembleScript content

end Options

structure Plan where
  limit : Level
  script : Script

def plan (args : List String) : Plan :=
  match Request.ofArguments args with
  | .error e => ⟨.error, .say (.complaint (complaint e)) (.exit 1)⟩
  | .ok .help => ⟨.error, .say (.text helpText) (.exit 0)⟩
  | .ok .version => ⟨.error, .say (.text versionText) (.exit 0)⟩
  | .ok (.assemble o) => ⟨o.limit, o.script⟩

structure Finished where
  status : UInt8
  standard : String
  error : String
  files : FileSystem

/-- Runs the command on a file system, with one stamp for every line of the log. -/
def run (stamp : String) (args : List String) (fs : FileSystem) : Finished :=
  let p := plan args
  let outcome := p.script.perform fs
  { status := outcome.status
    standard := String.join (outcome.outputs.map (Output.toStandard p.limit stamp))
    error := String.join (outcome.outputs.map Output.toError)
    files := outcome.files }

end NibbleAsm.Command
