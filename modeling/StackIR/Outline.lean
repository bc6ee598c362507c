import Std.Data.HashSet
import StackIR.Text.Quoted
import StackIR.Procedure.Basic

/-!
# Outlines

The outline of an expression is its tree as a dump shows it: a shared node in full at the first
place that refers to it, and as a back-reference everywhere else. Its text is an s-expression.
-/

namespace StackIR

/-- The tree of an expression, with back-references to shared nodes shown before. -/
inductive Outline where
  | full (e : ExprId) (node : Node) (operands : List Outline)
  | again (e : ExprId)
deriving Repr

/-! ## From the arena -/

/-- The shared nodes shown so far. -/
abbrev Shown := Std.HashSet ExprId

/-- The outline of an expression. It fails where an operand does not stand before its node. -/
def Arena.outline (a : Arena) (e : ExprId) : StateT Shown Option Outline := do
  match a.get? e with
  | none => failure
  | some n =>
    if n.isShared && (← get).contains e then return .again e
    else
      if n.isShared then modify (·.insert e)
      let operands ← n.operands.mapM fun x => if x < e then a.outline x else failure
      return .full e n operands
termination_by e

/-- The outline of a statement's expression, if it has one. -/
def Arena.outlineStmt (a : Arena) (s : Stmt) : StateT Shown Option (Option Outline) :=
  s.expr?.mapM a.outline

/-- The outline of each statement's expression. A shared node is shown in full once in the whole
body. -/
def Procedure.outlines (p : Procedure) : Option (List (Option Outline)) :=
  (p.body.toList.mapM p.arena.outlineStmt).run' ∅

/-! ## Text -/

namespace Node

/-- The text of a node that is written without parentheses. -/
def atom? : Node → Option String
  | .literal value => some value.text
  | .pointer label info =>
    some (if info.isEmpty then "&" ++ label else "&" ++ label ++ " " ++ Text.quote info)
  | .cell c => some c.text
  | .jumpValue => some "jmp_value"
  | _ => none

/-- What stands between an opening parenthesis and the operands. -/
def head (n : Node) (e : ExprId) (uses? : Option Nat) : String :=
  match n with
  | .shared _ =>
    match uses? with
    | some uses => "shared#" ++ e.repr ++ " x" ++ uses.repr
    | none => "shared#" ++ e.repr
  | .runtimeCall name isAsync _ => (if isAsync then "call.async " else "call ") ++ name
  | .procCall callee isAsync _ =>
    (if isAsync then "proccall.async #" else "proccall #") ++ callee.toNat.repr
  | .field _ index => "field." ++ index.repr
  | .store .. => "store"
  | .retain _ => "incr"
  | .release _ => "decr"
  | .sequence _ => "seq"
  | .literal _ | .pointer .. | .cell _ | .jumpValue => ""

end Node

namespace Outline

mutual

/-- The outline as an s-expression, with the number of uses of a shared node where known. -/
def text (uses : ExprId → Option Nat) : Outline → String
  | .again e => "@" ++ e.repr
  | .full e n operands =>
    match n.atom? with
    | some s => s
    | none => "(" ++ n.head e (uses e) ++ operandsText uses operands ++ ")"

/-- The operands, each after a blank. -/
def operandsText (uses : ExprId → Option Nat) : List Outline → String
  | [] => ""
  | o :: os => " " ++ o.text uses ++ operandsText uses os

end

end Outline

end StackIR
