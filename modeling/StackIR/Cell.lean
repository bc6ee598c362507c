/-!
# Cells

A cell is the storage slot of one variable. Where it lives and whether its value is reference
counted are fixed when it is declared. A local that is both captured by a closure and written
after its initialization lives in a heap box (`Cell.isBoxed`), so that its frame and the closure
see the same value.
-/

namespace StackIR

/-- Names the declaration in the source program that a cell stands for. -/
abbrev DeclId := UInt32

/-- Where a cell lives. A captured cell lives in the environment of the closure reading it. -/
inductive Storage where
  | argument
  | localVar
  | captured
  | global
deriving Repr, DecidableEq

/-- What is known of a variable when its cell is declared. -/
structure Declaration where
  decl : DeclId
  /-- The variable's name, for dumps. -/
  name : Option String
  /-- A nested closure refers to the variable. -/
  captured : Bool
  /-- The variable is assigned after its initialization. -/
  written : Bool
  /-- The value held is retained and released explicitly. -/
  refCounted : Bool
deriving Repr, DecidableEq

/-- A storage slot for one variable, at a position among the slots of its storage. -/
structure Cell extends Declaration where
  /-- Position within the storage: local slot, argument number and so on. -/
  index : Nat
  storage : Storage
deriving Repr, DecidableEq

namespace Cell

/-- A local that is both captured and written lives in a box on the heap. -/
def isBoxed (c : Cell) : Bool :=
  c.storage = .localVar && c.captured && c.written

/-- Whether the frame holds a reference through the cell: to its counted value or to its box. -/
def isManaged (c : Cell) : Bool :=
  c.refCounted || c.isBoxed

/-- The cell without its name. Two cells are the same slot when they agree up to the name. -/
def unnamed (c : Cell) : Cell :=
  { c with name := none }

def SameSlot (c d : Cell) : Prop :=
  c.unnamed = d.unnamed

instance (c d : Cell) : Decidable (c.SameSlot d) :=
  inferInstanceAs (Decidable (c.unnamed = d.unnamed))

/-- What the name of a runtime helper ends with when it handles this cell. -/
def helperSuffix (c : Cell) : String :=
  if c.refCounted then "Ref" else ""

/-- The cell as dumps show it: its name, with marks for counted values and arguments. -/
def text (c : Cell) : String :=
  let name := c.name.getD "?"
  let name := if c.storage = .argument then "ARG " ++ name else name
  let name := if c.refCounted then "REF " ++ name else name
  "[" ++ name ++ "]"

end Cell

end StackIR
