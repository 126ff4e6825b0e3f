import NibbleAsm.Token

/-! Source lines and source files. A line has a number and a text, and its tokens are the words of
the text. A file is cut at its line feeds; a carriage return just before a line feed belongs to the
line's end and is dropped with it, and any other stays in the text. What follows the last line feed
is a line only if it is not empty. Each line is then decoded as UTF-8. -/

namespace NibbleAsm

structure Line where
  number : Nat
  text : String
deriving DecidableEq, Repr

namespace Line

def trimmed (l : Line) : String :=
  String.ofList (Text.trim Text.isBlank l.text.toList)

def isBlank (l : Line) : Bool :=
  (Text.trim Text.isBlank l.text.toList).isEmpty

def tokens (l : Line) : List Token :=
  (Text.words Text.isBlank l.text.toList).map String.ofList

def firstToken? (l : Line) : Option Token :=
  l.tokens.head?

def numbered (texts : List String) : List Line :=
  (texts.zipIdx 1).map fun p => ⟨p.2, p.1⟩

end Line

namespace Source

def lineFeed : UInt8 := 10

def carriageReturn : UInt8 := 13

/-- The bytes of a terminated line without the carriage return that ends them, if one does. -/
def dropReturn (s : List UInt8) : List UInt8 :=
  if s.getLast? = some carriageReturn then s.dropLast else s

/-- The lines of a file, as bytes. -/
def cut : List UInt8 → List (List UInt8)
  | [] => []
  | b :: s =>
    let line := (b :: s).takeWhile (· != lineFeed)
    let rest := (b :: s).dropWhile (· != lineFeed)
    if rest.isEmpty then [line] else dropReturn line :: cut rest.tail
termination_by s => s.length
decreasing_by
  have := (List.dropWhile_sublist (l := b :: s) (· != lineFeed)).length_le
  simp only [List.length_cons, List.length_tail] at this ⊢
  omega

def decode? (s : List UInt8) : Option String :=
  String.fromUTF8? ⟨s.toArray⟩

inductive ReadError where
  | notUtf8
deriving DecidableEq, Repr

def ReadError.message : ReadError → String
  | .notUtf8 => "stream did not contain valid UTF-8"

/-- The numbered lines of a file, if every one of them decodes. -/
def read (content : ByteArray) : Except ReadError (List Line) :=
  match (cut content.data.toList).mapM decode? with
  | some texts => .ok (Line.numbered texts)
  | none => .error .notUtf8

end Source

end NibbleAsm
