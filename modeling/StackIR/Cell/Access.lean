import StackIR.Expr.Basic

/-!
# Access to cells

Reading and writing the variable a cell stands for. A boxed local is read and assigned through its
box by helpers of the runtime library; reading a counted value hands out a reference of its own.
-/

namespace StackIR.Cell

def boxReader (c : Cell) : String :=
  "bitvm::ldloc" ++ c.helperSuffix

def boxWriter (c : Cell) : String :=
  "bitvm::stloc" ++ c.helperSuffix

/-- The slot as it is, neither unboxed nor retained. -/
def slot (c : Cell) (a : Arena) : ExprId × Arena :=
  a.add (.cell c)

/-- The value of the variable: read through the box if there is one, and retained if counted. -/
def load (c : Cell) (a : Arena) : ExprId × Arena :=
  let (e, a) := c.slot a
  let (e, a) := if c.isBoxed then a.add (.runtimeCall c.boxReader false [e]) else (e, a)
  if c.refCounted then a.add (.retain e) else (e, a)

/-- Writes the slot as it is, ignoring any box: the variable's initialization. -/
def storeSlot (c : Cell) (value : ExprId) (a : Arena) : ExprId × Arena :=
  let (target, a) := c.slot a
  a.add (.store target value)

/-- Assigns the variable, through the box if there is one. -/
def assign (c : Cell) (value : ExprId) (a : Arena) : ExprId × Arena :=
  if c.isBoxed then
    let (target, a) := c.slot a
    a.add (.runtimeCall c.boxWriter false [target, value])
  else c.storeSlot value a

end StackIR.Cell
