import NibbleAsm.Source

/-! The lines still to be assembled. They are taken from the front only, one at a time or as far as
the next line that is not blank; a line once taken does not come back. -/

namespace NibbleAsm

structure Feed where
  remaining : List Line
deriving DecidableEq, Repr

namespace Feed

/-- What a request took: blank lines passed over, the line handed out if there was one, and the
lines that are left. -/
structure Taken where
  skipped : List Line
  line? : Option Line
  rest : Feed
deriving DecidableEq, Repr

def next (f : Feed) : Taken where
  skipped := []
  line? := f.remaining.head?
  rest := ⟨f.remaining.tail⟩

/-- Passes over blank lines and hands out the first line that is not blank. -/
def nextNonblank (f : Feed) : Taken where
  skipped := f.remaining.takeWhile Line.isBlank
  line? := (f.remaining.dropWhile Line.isBlank).head?
  rest := ⟨(f.remaining.dropWhile Line.isBlank).tail⟩

inductive Request where
  | next
  | nextNonblank
deriving DecidableEq, Repr

def take (f : Feed) : Request → Taken
  | .next => f.next
  | .nextNonblank => f.nextNonblank

def size (f : Feed) : Nat :=
  f.remaining.length

def isEmpty (f : Feed) : Bool :=
  f.remaining.isEmpty

theorem suffix_nextNonblank (f : Feed) : f.nextNonblank.rest.remaining <:+ f.remaining :=
  (List.tail_suffix _).trans (List.dropWhile_suffix _)

end Feed

end NibbleAsm
