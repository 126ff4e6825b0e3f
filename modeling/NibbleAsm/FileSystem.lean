import NibbleAsm.Text.Words

/-! A file system as a value: what stands at each place below the root, and the working directory.
A path is names between slashes; it is followed name by name, and every place that is passed has to
be a directory. Paths and names have a greatest length, which counts the bytes of their UTF-8 form.
-/

namespace NibbleAsm

namespace Path

def components (path : String) : List String :=
  (Text.words (· == '/') path.toList).map String.ofList

def isAbsolute (path : String) : Bool :=
  path.toList.head? == some '/'

def endsInSlash (path : String) : Bool :=
  path.toList.getLast? == some '/'

/-- A name without its last extension. A dot at the front starts no extension. -/
def dropExtension (name : List Char) : List Char :=
  match name.reverse.dropWhile (· != '.') with
  | [] => name
  | [_] => name
  | _ :: before => before.reverse

/-- The last name of a path without its last extension; a path that ends in `..` has none. -/
def stem? (path : String) : Option String :=
  match ((components path).filter (· != ".")).getLast? with
  | none => none
  | some ".." => none
  | some name => some (String.ofList (dropExtension name.toList))

end Path

structure OsError where
  code : Nat
  text : String
deriving DecidableEq, Repr

namespace OsError

def notFound : OsError :=
  ⟨2, "No such file or directory"⟩

def notDirectory : OsError :=
  ⟨20, "Not a directory"⟩

def isDirectory : OsError :=
  ⟨21, "Is a directory"⟩

def nameTooLong : OsError :=
  ⟨36, "File name too long"⟩

def message (e : OsError) : String :=
  s!"{e.text} (os error {e.code})"

end OsError

/-- A file is first opened and then read or written; either can fail. -/
inductive AccessError where
  | opening (e : OsError)
  | transfer (e : OsError)
deriving DecidableEq, Repr

/-- The names that lead to a place from the root. -/
abbrev Place := List String

inductive Node where
  | file (content : ByteArray)
  | directory

structure FileSystem where
  nodes : List (Place × Node)
  workingDirectory : Place

namespace FileSystem

/-- What stands at a place. The root is a directory always. -/
def node? (fs : FileSystem) (p : Place) : Option Node :=
  if p = [] then some .directory else fs.nodes.lookup p

def put (fs : FileSystem) (p : Place) (n : Node) : FileSystem :=
  { fs with nodes := (p, n) :: fs.nodes.filter (·.1 != p) }

def enter (here : Place) (name : String) : Place :=
  if name = "." then here else if name = ".." then here.dropLast else here ++ [name]

def nameLimit : Nat :=
  255

def pathLimit : Nat :=
  4095

/-- Follows names from a place. The place it leads to need not be there. -/
def walk (fs : FileSystem) : Place → List String → Except OsError Place
  | here, [] => .ok here
  | here, name :: names =>
    match fs.node? here with
    | none => .error .notFound
    | some (.file _) => .error .notDirectory
    | some .directory =>
      if nameLimit < name.utf8ByteSize then .error .nameTooLong
      else fs.walk (enter here name) names

/-- Why a path is refused before any of its names is looked up. -/
def refusal? (path : String) : Option OsError :=
  if path = "" then some .notFound
  else if pathLimit < path.utf8ByteSize then some .nameTooLong
  else none

def origin (fs : FileSystem) (path : String) : Place :=
  if Path.isAbsolute path then [] else fs.workingDirectory

/-- The place of a path that is to be there. A slash at the end asks for a directory. -/
def locate (fs : FileSystem) (path : String) : Except OsError Place :=
  match refusal? path with
  | some e => .error e
  | none =>
    fs.walk (fs.origin path)
      (Path.components path ++ if Path.endsInSlash path then ["."] else [])

def read (fs : FileSystem) (path : String) : Except AccessError ByteArray :=
  match fs.locate path with
  | .error e => .error (.opening e)
  | .ok place =>
    match fs.node? place with
    | none => .error (.opening .notFound)
    | some .directory => .error (.transfer .isDirectory)
    | some (.file content) => .ok content

/-- The place of a path that may be created: its directory has to be there, and it must not be a
directory itself. -/
def locateNew (fs : FileSystem) (path : String) : Except OsError Place :=
  match refusal? path with
  | some e => .error e
  | none =>
    let names := Path.components path
    match fs.walk (fs.origin path) (names.dropLast ++ ["."]) with
    | .error e => .error e
    | .ok parent =>
      match names.getLast? with
      | none => .error .isDirectory
      | some name =>
        if name = "." ∨ name = ".." ∨ Path.endsInSlash path then .error .isDirectory
        else if nameLimit < name.utf8ByteSize then .error .nameTooLong
        else
          match fs.node? (parent ++ [name]) with
          | some .directory => .error .isDirectory
          | _ => .ok (parent ++ [name])

/-- Makes the file at a path, or replaces what it held. -/
def write (fs : FileSystem) (path : String) (content : ByteArray) :
    Except AccessError FileSystem :=
  match fs.locateNew path with
  | .error e => .error (.opening e)
  | .ok place => .ok (fs.put place (.file content))

end FileSystem

end NibbleAsm
