import StackIR.Procedure.Basic

/-!
# Procedure scripts

A script describes one procedure: its header, its cells and its body. Cells and labels go by the
names the script gives them. Expressions are trees, and a call says which of its arguments it only
borrows.
-/

namespace StackIR.Script

inductive Expr where
  | num (value : Int32)
  | bool (value : Bool)
  | pointer (label info : String)
  /-- The value of the named cell. -/
  | load (cell : String)
  /-- A runtime call, which borrows the arguments whose bit is set in the mask. -/
  | call (name : String) (mask : BitVec 32) (isAsync : Bool) (args : List Expr)
  | procCall (callee : ProcId) (isAsync : Bool) (args : List Expr)
  | field (of : Expr) (index : Nat)
  | sequence (items : List Expr)
  | jumpValue
deriving Repr

inductive Stmt where
  | expr (expr : Expr)
  /-- Writes a cell. An initialization ignores the cell's box. -/
  | store (cell : String) (value : Expr) (isInit : Bool)
  | label (name : String)
  | jump (target : String) (mode : JumpMode) (value : Option Expr)
  | stackEmpty
  /-- Releases one cell. -/
  | clear (cell : String)
  /-- Releases every local and argument. -/
  | clearAll
deriving Repr

/-- What a script says of the procedure as a whole. -/
structure Header where
  name : Option String := none
  id : ProcId := 0
  parent : Option ProcId := none
  isRoot : Bool := false
deriving Repr, DecidableEq

/-- The declaration of a cell. Without a declaration id its position is taken. -/
structure CellSpec where
  name : String
  storage : Storage
  decl : Option DeclId
  refCounted : Bool
  captured : Bool
  written : Bool
deriving Repr, DecidableEq

end StackIR.Script

namespace StackIR

structure Script where
  header : Script.Header
  cells : List Script.CellSpec
  body : List Script.Stmt
deriving Repr

end StackIR
