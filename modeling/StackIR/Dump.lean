import StackIR.Linkage
import StackIR.Outline

/-!
# Dumps

The dump of a procedure has four lines on the procedure and its cells, and then one line for each
statement. That of a linked procedure also tells how many jumps go to each label and at how many
places each shared expression is used.
-/

namespace StackIR

def JumpMode.text : JumpMode → String
  | .always => "jmp"
  | .ifZero => "jmpz"
  | .ifNotZero => "jmpnz"

/-- A list of cells, or a dash for none. -/
def cellsText (cells : Array Cell) : String :=
  if cells.isEmpty then "-" else ", ".intercalate (cells.toList.map Cell.text)

/-- A number with blanks before it, to fill at least four columns. -/
def columnText (n : Nat) : String :=
  String.ofList (List.replicate (4 - n.repr.length) ' ') ++ n.repr

namespace Procedure

def title (p : Procedure) : String :=
  "proc " ++ p.displayName ++ " #" ++ p.id.toNat.repr ++
    (match p.parent with
      | some parent => " in #" ++ parent.toNat.repr
      | none => "") ++
    (if p.isRoot then " (root)" else "")

/-- The name a jump is shown with: that of the label it was linked to, or else of its target. -/
def targetText (p : Procedure) (linked? : Option LabelId) (target : Target) : String :=
  match linked?, target with
  | some l, _ | none, .label l => p.labelName l
  | none, .name name => name

def stmtText (p : Procedure) (link? : Option Linkage) (i : Nat) (s : Stmt)
    (outline? : Option Outline) : String :=
  let exprText := (outline?.map (·.text fun e => link?.bind (·.sharedUses[e]?))).getD ""
  match s with
  | .expr _ => "expr " ++ exprText
  | .label l =>
    p.labelName l ++ ":" ++
      match link? with
      | some link => "  ; " ++ (link.incoming.getD l 0).repr ++ " incoming"
      | none => ""
  | .jump target mode value =>
    mode.text ++ " " ++ p.targetText (link?.bind (·.targets.getD i none)) target ++
      if value.isSome then " " ++ exprText else ""
  | .stackEmpty => "stack_empty"

/-- The lines of a dump, given the outline of each statement's expression. -/
def dumpLines (p : Procedure) (link? : Option Linkage) (outlines : List (Option Outline)) :
    List String :=
  [p.title,
    "  args: " ++ cellsText p.args,
    "  locals: " ++ cellsText p.locals,
    "  captured: " ++ cellsText p.captured] ++
  (p.body.toList.zip outlines).zipIdx.map fun ((s, outline?), i) =>
    columnText i ++ "  " ++ p.stmtText link? i s outline?

/-- The dump, with what linking found if it has been linked. It fails where an operand does not
stand before its node. -/
def dumpWith (p : Procedure) (link? : Option Linkage) : Option String :=
  p.outlines.map fun outlines =>
    String.join ((p.dumpLines link? outlines).map (· ++ "\n"))

def dump (p : Procedure) : Option String :=
  p.dumpWith none

end Procedure

def LinkedProcedure.dump (p : LinkedProcedure) : Option String :=
  p.procedure.dumpWith p.linkage

end StackIR
