import NibbleAsm.Log

/-! Command-line arguments. They are first cut into items, which needs no knowledge of what was
given before, and the items are then taken in order: a request for help or for the version is
granted as soon as it is met, an unknown option or a second input is refused as soon as it is met,
and what is missing or given twice is noticed at the end. -/

namespace NibbleAsm.Command

structure Options where
  input : String
  output? : Option String
  /-- How often more detail was asked for. -/
  verbosity : Nat
  print : Bool
  grid : Bool
deriving DecidableEq, Repr

def Options.limit (o : Options) : Level :=
  match o.verbosity with
  | 0 => .error
  | 1 => .warn
  | 2 => .info
  | _ => .debug

inductive Request where
  | help
  | version
  | assemble (o : Options)
deriving DecidableEq, Repr

inductive UsageError where
  | unknownOption (name : String)
  | secondInput (path : String)
  | missingInput
  | repeated (option : String)
  | missingValue
deriving DecidableEq, Repr

def UsageError.message : UsageError → String
  | .unknownOption name => s!"found argument '{name}' which was not expected"
  | .secondInput path => s!"found argument '{path}' which was not expected"
  | .missingInput => "the required argument <INPUT> was not provided"
  | .repeated option => s!"the argument '{option}' was provided more than once"
  | .missingValue => "the argument '-o <output>' requires a value"

inductive Item where
  | verbose
  | print
  | grid
  | output (value? : Option String)
  | help
  | version
  | input (path : String)
  | unknown (name : String)
deriving DecidableEq, Repr

namespace Item

/-- Whether an argument is taken as a value where one is awaited. A dash alone is. -/
def isValue (arg : String) : Bool :=
  arg.toList.head? != some '-' || arg == "-"

/-- A long option. Dashes in front and a value after `=` are not part of its name. -/
def ofLong (arg : String) : Item :=
  match String.ofList ((arg.toList.dropWhile (· == '-')).takeWhile (· != '=')) with
  | "print" => .print
  | "help" => .help
  | "version" => .version
  | _ => .unknown arg

/-- Short options joined behind one dash. The letter `o` takes what follows it, without the `=` that
may stand between, as its value; as the last letter it awaits the next argument. -/
def ofShorts (next? : Option String) : List Char → List Item
  | [] => []
  | 'v' :: cs => .verbose :: ofShorts next? cs
  | 'p' :: cs => .print :: ofShorts next? cs
  | 'd' :: cs => .grid :: ofShorts next? cs
  | 'h' :: cs => .help :: ofShorts next? cs
  | 'V' :: cs => .version :: ofShorts next? cs
  | ['o'] => [.output (next?.filter isValue)]
  | 'o' :: cs => [.output (some (String.ofList (cs.dropWhile (· == '='))))]
  | c :: _ => [.unknown (String.ofList ['-', c])]

/-- Whether joined short options end in an `o` that awaits a value. -/
def awaitsValue : List Char → Bool
  | [] => false
  | ['o'] => true
  | c :: cs => (c == 'v' || c == 'p' || c == 'd' || c == 'h' || c == 'V') && awaitsValue cs

end Item

/-- Cuts arguments into items. After `--` every argument is an input. -/
def items : List String → List Item
  | [] => []
  | arg :: args =>
    match arg.toList with
    | ['-', '-'] => args.map .input
    | '-' :: '-' :: _ => Item.ofLong arg :: items args
    | '-' :: c :: cs =>
      let valueTaken := Item.awaitsValue (c :: cs) && args.head?.any Item.isValue
      Item.ofShorts args.head? (c :: cs) ++ items (if valueTaken then args.tail else args)
    | _ => .input arg :: items args
termination_by args => args.length
decreasing_by
  · simp
  · split
    · simp only [List.length_tail, List.length_cons]
      omega
    · simp
  · simp

structure Said where
  input? : Option String := none
  outputs : List (Option String) := []
  verbose : Nat := 0
  print : Nat := 0
  grid : Nat := 0

def Said.options (s : Said) : Except UsageError Options :=
  if s.print > 1 then .error (.repeated "--print")
  else if s.grid > 1 then .error (.repeated "-d")
  else
    match s.input?, s.outputs with
    | none, _ => .error .missingInput
    | some input, [] => .ok ⟨input, none, s.verbose, s.print == 1, s.grid == 1⟩
    | some input, [some output] => .ok ⟨input, some output, s.verbose, s.print == 1, s.grid == 1⟩
    | some _, [none] => .error .missingValue
    | some _, _ => .error (.repeated "-o <output>")

def Said.request (s : Said) : List Item → Except UsageError Request
  | [] => s.options.map .assemble
  | .help :: _ => .ok .help
  | .version :: _ => .ok .version
  | .unknown name :: _ => .error (.unknownOption name)
  | .input path :: rest =>
    match s.input? with
    | some _ => .error (.secondInput path)
    | none => { s with input? := some path : Said }.request rest
  | .verbose :: rest => { s with verbose := s.verbose + 1 : Said }.request rest
  | .print :: rest => { s with print := s.print + 1 : Said }.request rest
  | .grid :: rest => { s with grid := s.grid + 1 : Said }.request rest
  | .output value? :: rest => { s with outputs := s.outputs ++ [value?] : Said }.request rest

def Request.ofArguments (args : List String) : Except UsageError Request :=
  ({} : Said).request (items args)

end NibbleAsm.Command
