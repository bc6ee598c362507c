import StackIR.Cell

/-!
# Expressions

The expressions of a procedure are nodes of an arena. A node names its operands by their position
in the arena, so a subexpression can stand under several parents. The operation fixes how many
operands a node has.
-/

namespace StackIR

/-- Names a procedure of the program. -/
abbrev ProcId := UInt32

/-- The position of a node in its arena. -/
abbrev ExprId := Nat

/-- A number or truth value the machine can push. -/
inductive Literal where
  | int (value : Int32)
  | bool (value : Bool)
deriving Repr, DecidableEq

def Literal.text : Literal → String
  | .int value => value.toInt.repr
  | .bool true => "true"
  | .bool false => "false"

/-- An expression node: an operation with its operands. -/
inductive Node where
  | literal (value : Literal)
  /-- The address of a labelled datum, with free text for dumps. -/
  | pointer (label info : String)
  | runtimeCall (name : String) (isAsync : Bool) (args : List ExprId)
  | procCall (callee : ProcId) (isAsync : Bool) (args : List ExprId)
  /-- An operand that is computed once, however many parents the node has. -/
  | shared (operand : ExprId)
  /-- One field of a compound value. -/
  | field (operand : ExprId) (index : Nat)
  /-- Writes a value to a target, which is expected to be a cell. -/
  | store (target value : ExprId)
  /-- The slot of a cell, as it is. -/
  | cell (cell : Cell)
  /-- The operand's value, with one more reference for whoever evaluates it. -/
  | retain (operand : ExprId)
  /-- Gives up one reference to the operand's value. -/
  | release (operand : ExprId)
  /-- Evaluates the items in order; the value is that of the last. -/
  | sequence (items : List ExprId)
  /-- The value a jump left behind, taken at the label. -/
  | jumpValue
deriving Repr, DecidableEq

namespace Node

/-- The operands of a node, in the order they are evaluated. -/
def operands : Node → List ExprId
  | .literal _ | .pointer .. | .cell _ | .jumpValue => []
  | .shared e | .field e _ | .retain e | .release e => [e]
  | .store target value => [target, value]
  | .runtimeCall _ _ es | .procCall _ _ es | .sequence es => es

/-- Whether a node is a literal or a pointer. Evaluating one again costs nothing. -/
def isLiteral : Node → Bool
  | .literal _ | .pointer .. => true
  | _ => false

/-- Whether a node is computed once for all its parents. -/
def isShared : Node → Bool
  | .shared _ => true
  | _ => false

def isAsync : Node → Bool
  | .runtimeCall _ isAsync _ | .procCall _ isAsync _ => isAsync
  | _ => false

/-- The node without the names of cells. -/
def unnamed : Node → Node
  | .cell c => .cell c.unnamed
  | n => n

end Node

/-- The expression nodes of one procedure. -/
structure Arena where
  nodes : Array Node := #[]
deriving Repr, DecidableEq

namespace Arena

/-- The number of nodes, which is also the position of the next one. -/
def size (a : Arena) : Nat :=
  a.nodes.size

def get? (a : Arena) (e : ExprId) : Option Node :=
  a.nodes[e]?

/-- Appends a node and tells its position. -/
def add (a : Arena) (n : Node) : ExprId × Arena :=
  (a.size, ⟨a.nodes.push n⟩)

/-- Every operand of every node stands before the node itself. -/
def OperandsPrecede (a : Arena) : Prop :=
  ∀ e n, a.get? e = some n → ∀ x ∈ n.operands, x < e

@[simp] theorem size_add (a : Arena) (n : Node) : (a.add n).2.size = a.size + 1 := by
  simp [add, size]

@[simp] theorem get?_add_self (a : Arena) (n : Node) : (a.add n).2.get? a.size = some n := by
  simp [add, get?, size]

theorem get?_add_of_lt (a : Arena) (n : Node) {e : ExprId} (h : e < a.size) :
    (a.add n).2.get? e = a.get? e := by
  have h' : e < a.nodes.size := h
  simp [add, get?, Array.getElem?_push, Nat.ne_of_lt h']

end Arena

end StackIR
