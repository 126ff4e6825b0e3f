/-! Opcode tables. A table lists its entries by form; a name is looked for among the packed entries,
then the single ones, then the immediate ones, and the first entry of that name is taken. Names are
the same if they differ in the case of the letters `A` to `Z` only. -/

namespace NibbleAsm

namespace Text

def foldCase (s : String) : List Char :=
  s.toList.map Char.toLower

def sameName (s t : String) : Bool :=
  foldCase s == foldCase t

theorem sameName_iff {s t : String} : sameName s t = true ↔ foldCase s = foldCase t := by
  simp [sameName]

end Text

/-- How an instruction is laid out: the operand in the low half of its only byte, no operand at all,
or the operand in a byte of its own. -/
inductive Form where
  | packed
  | single
  | immediate
deriving DecidableEq, Repr

structure Entry where
  name : String
  base : UInt8
deriving DecidableEq, Repr

structure Opcode where
  name : String
  form : Form
  base : UInt8
deriving DecidableEq, Repr

def Entry.opcode (form : Form) (e : Entry) : Opcode :=
  ⟨e.name, form, e.base⟩

structure Table where
  packed : List Entry
  single : List Entry
  immediate : List Entry
deriving DecidableEq, Repr

namespace Table

def standard : Table where
  packed :=
    [⟨"LDA", 0x10⟩, ⟨"LDB", 0x20⟩, ⟨"OUT", 0x30⟩, ⟨"SUB", 0x40⟩,
     ⟨"SHT", 0x60⟩, ⟨"STA", 0x70⟩, ⟨"RTE", 0x80⟩, ⟨"JMP", 0x90⟩]
  single := [⟨"HLT", 0x50⟩]
  immediate := []

/-- Every opcode, in the order in which names are looked for. -/
def opcodes (t : Table) : List Opcode :=
  t.packed.map (Entry.opcode .packed) ++ t.single.map (Entry.opcode .single) ++
    t.immediate.map (Entry.opcode .immediate)

def find? (t : Table) (name : String) : Option Opcode :=
  t.opcodes.find? fun op => Text.sameName op.name name

def mnemonics (t : Table) : List String :=
  t.opcodes.map Opcode.name

end Table

end NibbleAsm
