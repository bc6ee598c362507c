import Std.Data.HashMap
import Std.Data.HashSet
import StackIR.Cell.Access
import StackIR.Expr.Build
import StackIR.Procedure.Release
import StackIR.Script.Basic
import StackIR.Text.Quoted

/-!
# Lowering

Lowering a script declares its cells, then emits its statements in order, and stops at the first
error. A label is made when a statement first mentions its name, be it a jump or the statement that
places it, so jumps may come before their label. Lowering an expression only adds nodes to the
arena.
-/

namespace StackIR.Script

/-- Why a script cannot be lowered. -/
inductive LowerError where
  | unknownCell (name : String)
  | duplicateCell (name : String)
  | duplicateDecl (decl : DeclId) (name : String)
  | release (error : ReleaseError)
deriving Repr, DecidableEq

def LowerError.message : LowerError → String
  | .unknownCell name => "cell " ++ Text.quote name ++ " is not declared"
  | .duplicateCell name => "cell " ++ Text.quote name ++ " is declared twice"
  | .duplicateDecl decl name =>
    "cell " ++ Text.quote name ++ " reuses declaration id " ++ decl.toNat.repr
  | .release error => error.message

/-! ## Cells -/

/-- The cells of a script by name. -/
abbrev CellTable := Std.HashMap String Cell

/-- The cells declared so far. -/
structure Declared where
  procedure : Procedure
  cells : CellTable := ∅
  decls : Std.HashSet DeclId := ∅
  /-- The number of globals, which no procedure owns. -/
  globals : Nat := 0

namespace Declared

/-- Makes a cell in the given storage. -/
def addCell (d : Declared) (storage : Storage) (decl : Declaration) : Cell × Declared :=
  match storage with
  | .argument =>
    let (c, procedure) := d.procedure.addArgument decl
    (c, { d with procedure })
  | .localVar =>
    let (c, procedure) := d.procedure.addLocal decl
    (c, { d with procedure })
  | .captured =>
    let (c, procedure) := d.procedure.addCaptured decl
    (c, { d with procedure })
  | .global => (decl.cell d.globals .global, { d with globals := d.globals + 1 })

/-- Declares the cell at a position of the script. A declaration id that is taken is found out
before a name that is. -/
def declare (d : Declared) : CellSpec × Nat → Except LowerError Declared
  | (spec, position) =>
    let decl : DeclId := spec.decl.getD position.toUInt32
    if d.decls.contains decl then .error (.duplicateDecl decl spec.name)
    else if d.cells.contains spec.name then .error (.duplicateCell spec.name)
    else
      let (c, d) := d.addCell spec.storage
        { decl, name := some spec.name, captured := spec.captured, written := spec.written,
          refCounted := spec.refCounted }
      .ok { d with cells := d.cells.insert spec.name c, decls := d.decls.insert decl }

end Declared

def findCell (cells : CellTable) (name : String) : Except LowerError Cell :=
  match cells[name]? with
  | some c => .ok c
  | none => .error (.unknownCell name)

/-! ## Expressions -/

mutual

/-- Adds the nodes of an expression to the arena. -/
def lowerExpr (cells : CellTable) : Expr → StateT Arena (Except LowerError) ExprId
  | .num value => modifyGet (·.add (.literal (.int value)))
  | .bool value => modifyGet (·.add (.literal (.bool value)))
  | .pointer label info => modifyGet (·.add (.pointer label info))
  | .load name => do
    let c ← findCell cells name
    modifyGet c.load
  | .call name mask isAsync args => do
    let args ← lowerExprs cells args
    modifyGet (·.borrowCall name mask isAsync args)
  | .procCall callee isAsync args => do
    let args ← lowerExprs cells args
    modifyGet (·.add (.procCall callee isAsync args))
  | .field e index => do
    let e ← lowerExpr cells e
    modifyGet (·.add (.field e index))
  | .sequence items => do
    let items ← lowerExprs cells items
    modifyGet (·.add (.sequence items))
  | .jumpValue => modifyGet (·.add .jumpValue)

/-- Adds the nodes of several expressions to the arena, from the left. -/
def lowerExprs (cells : CellTable) : List Expr → StateT Arena (Except LowerError) (List ExprId)
  | [] => return []
  | e :: es => do
    let e ← lowerExpr cells e
    let es ← lowerExprs cells es
    return e :: es

end

/-! ## Statements -/

/-- A procedure under construction, and its labels by their names in the script. -/
structure Emission where
  procedure : Procedure
  labels : Std.HashMap String LabelId := ∅

namespace Emission

def build (m : Emission) (e : StateT Arena (Except LowerError) ExprId) :
    Except LowerError (ExprId × Emission) :=
  match e m.procedure.arena with
  | .error error => .error error
  | .ok (e, arena) => .ok (e, { m with procedure := { m.procedure with arena } })

def emit (m : Emission) (s : StackIR.Stmt) : Emission :=
  { m with procedure := m.procedure.emit s }

/-- The label with a name, which is made at the first mention. -/
def label (m : Emission) (name : String) : LabelId × Emission :=
  match m.labels[name]? with
  | some l => (l, m)
  | none =>
    let (l, procedure) := m.procedure.newLabel name
    (l, { procedure, labels := m.labels.insert name l })

/-- Emits what releases cells at the end of a scope. -/
def release (m : Emission) (f : Releasing Unit) : Except LowerError Emission :=
  match f.run m.procedure with
  | (.error error, _) => .error (.release error)
  | (.ok (), procedure) => .ok { m with procedure }

def lower (cells : CellTable) (m : Emission) : Stmt → Except LowerError Emission
  | .expr e => do
    let (e, m) ← m.build (lowerExpr cells e)
    return m.emit (.expr e)
  | .store name value isInit => do
    let c ← findCell cells name
    let (e, m) ← m.build do
      let value ← lowerExpr cells value
      modifyGet (if isInit then c.storeSlot value else c.assign value)
    return m.emit (.expr e)
  | .label name =>
    let (l, m) := m.label name
    return m.emit (.label l)
  | .jump target mode none =>
    let (l, m) := m.label target
    return m.emit (.jump (.label l) mode none)
  | .jump target mode (some value) => do
    let (l, m) := m.label target
    let (e, m) ← m.build (lowerExpr cells value)
    return m.emit (.jump (.label l) mode (some e))
  | .stackEmpty => return m.emit .stackEmpty
  | .clear name => do
    let c ← findCell cells name
    m.release (Procedure.releaseCell c)
  | .clearAll => m.release Procedure.releaseAll

end Emission

/-! ## Scripts -/

/-- The procedure a header describes, still without cells and body. -/
def Header.procedure (h : Header) : Procedure :=
  { id := h.id, name := h.name, parent := h.parent, isRoot := h.isRoot }

def declared (s : Script) : Except LowerError Declared :=
  s.cells.zipIdx.foldlM Declared.declare { procedure := s.header.procedure }

/-- The procedure that a script describes, not linked yet. -/
def lower (s : Script) : Except LowerError Procedure := do
  let d ← s.declared
  let m ← s.body.foldlM (Emission.lower d.cells) { procedure := d.procedure }
  return m.procedure

end StackIR.Script
