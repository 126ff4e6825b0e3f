import NibbleAsm.Listing
import NibbleAsm.Text.Width

/-! The grid of a listing: one row for each emission with its address, its source, an arrow and its
bytes. Every column but the last is as wide as its widest cell and one space; a line feed ends each
row, and one more ends the grid. -/

namespace NibbleAsm.Grid

abbrev Cell := List Char

structure Row where
  address : Cell
  source : Cell
  bytes : Cell

def Row.ofEmission (e : Emission) : Row where
  address := e.addressLabel.toList
  source := e.line.trimmed.toList
  bytes := e.hex.toList

def arrow : Cell :=
  ['=', '>']

def columnWidth (cells : List Cell) : Nat :=
  (cells.map Text.width).foldl max 0 + 1

def pad (columns : Nat) (cell : Cell) : List Char :=
  cell ++ List.replicate (columns - Text.width cell) ' '

def Row.render (addressWidth sourceWidth : Nat) (r : Row) : List Char :=
  pad addressWidth r.address ++ pad sourceWidth r.source ++ pad (columnWidth [arrow]) arrow ++
    r.bytes ++ ['\n']

def render (rows : List Row) : List Char :=
  rows.flatMap
      (Row.render (columnWidth (rows.map Row.address)) (columnWidth (rows.map Row.source))) ++
    ['\n']

end NibbleAsm.Grid

namespace NibbleAsm

def Listing.grid (l : Listing) : String :=
  String.ofList (Grid.render (l.emissions.map Grid.Row.ofEmission))

end NibbleAsm
