import StackIR.Expr.Basic

/-!
# Procedures

A procedure owns its cells, its expressions, its labels and a flat list of statements. Statements
are only ever appended. A jump names its label by handle or by name, and may come before the
statement that places the label; `Procedure.link` finds the label of each jump once the body is
complete.
-/

namespace StackIR

/-- The handle of a label: its position in the label table. -/
abbrev LabelId := Nat

/-- Where a jump goes. A name may be that of a label that is made later. -/
inductive Target where
  | label (label : LabelId)
  | name (name : String)
deriving Repr, DecidableEq

/-- When a jump is taken. -/
inductive JumpMode where
  | always
  | ifZero
  | ifNotZero
deriving Repr, DecidableEq

inductive Stmt where
  /-- Evaluates an expression for its effect. -/
  | expr (e : ExprId)
  | label (label : LabelId)
  /-- Jumps, on the value of an expression or carrying it along. -/
  | jump (target : Target) (mode : JumpMode) (value : Option ExprId)
  /-- Asserts that no value is pending on the stack. -/
  | stackEmpty
deriving Repr, DecidableEq

def Stmt.expr? : Stmt → Option ExprId
  | .expr e => some e
  | .jump _ _ value => value
  | .label _ | .stackEmpty => none

/-- The body of one procedure under construction. -/
structure Procedure where
  id : ProcId
  name : Option String := none
  /-- The procedure a closure is nested in. -/
  parent : Option ProcId := none
  /-- The entry point of the program. It never returns, so it never gives up its cells. -/
  isRoot : Bool := false
  args : Array Cell := #[]
  locals : Array Cell := #[]
  captured : Array Cell := #[]
  arena : Arena := {}
  /-- The names of the labels, by handle. -/
  labels : Array String := #[]
  body : Array Stmt := #[]
deriving Repr, DecidableEq

def Declaration.cell (d : Declaration) (index : Nat) (storage : Storage) : Cell :=
  { d with index, storage }

namespace Procedure

/-- The name a procedure goes by in dumps. -/
def displayName (p : Procedure) : String :=
  p.name.getD "inline"

/-! ## Cells -/

def addArgument (p : Procedure) (d : Declaration) : Cell × Procedure :=
  let c := d.cell p.args.size .argument
  (c, { p with args := p.args.push c })

def addLocal (p : Procedure) (d : Declaration) : Cell × Procedure :=
  let c := d.cell p.locals.size .localVar
  (c, { p with locals := p.locals.push c })

/-- Adds a cell captured from an enclosing procedure. -/
def addCaptured (p : Procedure) (d : Declaration) : Cell × Procedure :=
  let c := d.cell p.captured.size .captured
  (c, { p with captured := p.captured.push c })

/-- The cell made for a declaration: a captured one, else a local, else an argument, which may be
left out of the search. -/
def cellOf? (p : Procedure) (decl : DeclId) (skipArgs : Bool) : Option Cell :=
  let isFor (c : Cell) : Bool := c.decl = decl
  p.captured.find? isFor <|> p.locals.find? isFor <|>
    if skipArgs then none else p.args.find? isFor

/-! ## Expressions, labels and statements -/

def build (p : Procedure) (f : Arena → ExprId × Arena) : ExprId × Procedure :=
  let (e, arena) := f p.arena
  (e, { p with arena })

/-- Makes a label. Its handle is part of its name, so labels made from one base differ. -/
def newLabel (p : Procedure) (base : String) : LabelId × Procedure :=
  let label := p.labels.size
  (label, { p with labels := p.labels.push ("." ++ base ++ "." ++ label.repr) })

/-- The name of a label, `?` for a handle that names none. -/
def labelName (p : Procedure) (label : LabelId) : String :=
  p.labels.getD label "?"

def emit (p : Procedure) (s : Stmt) : Procedure :=
  { p with body := p.body.push s }

end Procedure

end StackIR
