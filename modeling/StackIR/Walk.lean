import Std.Data.HashSet
import StackIR.Procedure.Basic

/-!
# Walking a procedure

The walk meets every statement in order and, after a statement, the tree of its expression: a node
before its operands. A shared node is met at each place that refers to it, but its operand is
entered only at the first. An operand has to stand before the node that refers to it, which is
what ends the walk; it fails on an arena where some operand does not.
-/

namespace StackIR

inductive Visit where
  | stmt (index : Nat)
  | expr (e : ExprId)
deriving Repr, DecidableEq

/-- How far a walk has come: the shared nodes it has entered, and what it has met so far. -/
structure Trail where
  entered : Std.HashSet ExprId := ∅
  visits : Array Visit := #[]

namespace Trail

/-- Meets a statement or an expression. -/
def meets (t : Trail) (v : Visit) : Trail :=
  { t with visits := t.visits.push v }

def enters (t : Trail) (e : ExprId) : Trail :=
  { t with entered := t.entered.insert e }

end Trail

/-- Walks the tree of an expression. -/
def Arena.walk (a : Arena) (e : ExprId) (t : Trail) : Option Trail :=
  match a.get? e with
  | none => none
  | some n =>
    let t := t.meets (.expr e)
    if n.isShared && t.entered.contains e then some t
    else
      n.operands.foldlM (fun t x => if x < e then a.walk x t else none)
        (if n.isShared then t.enters e else t)
termination_by e

namespace Procedure

def walkStmt (p : Procedure) (t : Trail) (s : Stmt × Nat) : Option Trail :=
  let t := t.meets (.stmt s.2)
  match s.1.expr? with
  | none => some t
  | some e => p.arena.walk e t

def walk (p : Procedure) : Option (Array Visit) := do
  let t ← p.body.toList.zipIdx.foldlM p.walkStmt {}
  return t.visits

end Procedure

end StackIR
