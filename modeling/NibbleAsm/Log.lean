import NibbleAsm.Listing

/-! The log of an assembly, as data: events in the order they happened, each with a level. A limit
on the level decides which of them are shown and changes nothing else. -/

namespace NibbleAsm

/-- From the most severe to the most detailed. -/
inductive Level where
  | error
  | warn
  | info
  | debug
  | trace
deriving DecidableEq, Repr

namespace Level

def name : Level → String
  | .error => "ERROR"
  | .warn => "WARN"
  | .info => "INFO"
  | .debug => "DEBUG"
  | .trace => "TRACE"

def detail : Level → Nat
  | .error => 1
  | .warn => 2
  | .info => 3
  | .debug => 4
  | .trace => 5

/-- Whether an event of this level is shown under a limit; under no limit nothing is. -/
def shownAt (limit : Option Level) (l : Level) : Bool :=
  limit.any fun m => l.detail ≤ m.detail

@[simp] theorem error_shownAt (limit : Level) : error.shownAt (some limit) = true := by
  cases limit <;> rfl

end Level

inductive Event where
  | blankSkipped (line : Nat)
  | sourceRead (lines : Nat)
  | emitted (e : Emission)
  | assembled (lines bytes : Nat)
deriving DecidableEq, Repr

namespace Event

def level : Event → Level
  | .blankSkipped _ => .trace
  | .sourceRead _ => .debug
  | .emitted _ => .debug
  | .assembled _ _ => .info

def message : Event → String
  | .blankSkipped line => s!"skipping blank line {line}"
  | .sourceRead lines => s!"read {lines} source line(s)"
  | .emitted e => e.addressLabel ++ " " ++ e.display
  | .assembled lines bytes => s!"assembled {lines} line(s) into {bytes} byte(s)"

def shown (limit : Option Level) (log : List Event) : List Event :=
  log.filter fun e => e.level.shownAt limit

def ofSkipped (lines : List Line) : List Event :=
  lines.map fun l => .blankSkipped l.number

end Event

structure Logged (α : Type) where
  result : α
  log : List Event

end NibbleAsm
