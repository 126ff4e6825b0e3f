import NibbleAsm.Source

/-! The record of an assembly: for each instruction the line it started on, the bytes it gave and
where they stand in the output. The output is written as an image: a header line, then every byte on
one line addressed from zero, with no line feed at the end. A byte is two lower-case digits of base
sixteen, bytes are joined by single spaces, and an address has upper-case digits, four of them at
least. -/

namespace NibbleAsm

namespace Text

def hexPair (b : UInt8) : List Char :=
  [Nat.digitChar (b.toNat / 16), Nat.digitChar (b.toNat % 16)]

def hexPairs (bs : List UInt8) : List Char :=
  [' '].intercalate (bs.map hexPair)

def hexAddress (n : Nat) : List Char :=
  ((Nat.toDigits 16 n).map Char.toUpper).leftpad 4 '0'

end Text

structure Emission where
  line : Line
  /-- The offset of the first byte in the output. -/
  address : Nat
  bytes : List UInt8
deriving DecidableEq, Repr

namespace Emission

def hex (e : Emission) : String :=
  String.ofList (Text.hexPairs e.bytes)

/-- The line number, in four columns at least, the source without the blanks around it, and the
bytes. -/
def display (e : Emission) : String :=
  String.ofList ((Nat.toDigits 10 e.line.number).leftpad 4 ' ') ++
    ": " ++ e.line.trimmed ++ " => " ++ e.hex

def addressLabel (e : Emission) : String :=
  "0x" ++ String.ofList (Text.hexAddress e.address) ++ ":"

end Emission

structure Listing where
  emissions : List Emission
deriving DecidableEq, Repr

namespace Listing

/-- The output: the bytes of all emissions, one after the other. -/
def bytes (l : Listing) : List UInt8 :=
  l.emissions.flatMap Emission.bytes

def size (l : Listing) : Nat :=
  l.emissions.foldr (fun e n => e.bytes.length + n) 0

def isEmpty (l : Listing) : Bool :=
  l.size == 0

theorem size_cons (e : Emission) (es : List Emission) :
    (⟨e :: es⟩ : Listing).size = e.bytes.length + (⟨es⟩ : Listing).size := rfl

theorem length_bytes (l : Listing) : l.bytes.length = l.size := by
  obtain ⟨es⟩ := l
  induction es with
  | nil => rfl
  | cons e es ih =>
    rw [bytes] at ih
    rw [bytes, List.flatMap_cons, List.length_append, ih, size_cons]

end Listing

namespace Image

def header : String :=
  "v3.0 hex words addressed"

def render (bytes : List UInt8) : String :=
  header ++ "\n0: " ++ String.ofList (Text.hexPairs bytes)

end Image

end NibbleAsm
