import StackIR.Text.Quoted
import StackIR.UseTracker
import StackIR.Walk

/-!
# Linkage

Linking a complete procedure finds the statement that places each label, the label of each jump,
how many jumps go to each label, and at how many places each shared expression is used. It first
checks every statement that places a label and only then the jumps, so an error in a label comes
before an error in a jump, wherever they stand.
-/

namespace StackIR

/-- Why a procedure cannot be linked. -/
inductive LinkError where
  /-- A jump goes to a label that is placed nowhere. -/
  | undefinedLabel (name : String) (jump : Nat)
  /-- A statement refers to a handle that names no label. -/
  | unknownLabel (label : LabelId) (stmt : Nat)
  /-- A statement places a label that an earlier one placed. -/
  | duplicateLabel (name : String) (stmt : Nat)
  /-- Some operand does not stand before the node that refers to it. -/
  | danglingOperand
deriving Repr, DecidableEq

def LinkError.message : LinkError → String
  | .undefinedLabel name jump =>
    "jump at statement " ++ jump.repr ++ " targets undefined label " ++ Text.quote name
  | .unknownLabel label stmt =>
    "statement " ++ stmt.repr ++ " refers to label #" ++ label.repr ++
      ", which was never allocated"
  | .duplicateLabel name _ => "label " ++ Text.quote name ++ " placed more than once"
  | .danglingOperand => "an operand does not precede the node that refers to it"

structure Linkage where
  /-- The statement that places each label, by handle. -/
  placements : Array (Option Nat)
  /-- The label each jump goes to, by statement. -/
  targets : Array (Option LabelId)
  /-- The number of jumps that go to each label, by handle. -/
  incoming : Array Nat
  /-- The number of places that use each shared expression the walk meets. -/
  sharedUses : Std.HashMap ExprId Nat

namespace Procedure

/-! ## Labels -/

/-- Enters one statement into the placements found so far. -/
def placeLabel (p : Procedure) (placed : Array (Option Nat)) :
    Stmt × Nat → Except LinkError (Array (Option Nat))
  | (.label l, i) =>
    match placed[l]? with
    | none => .error (.unknownLabel l i)
    | some (some _) => .error (.duplicateLabel (p.labelName l) i)
    | some none => .ok (placed.set! l (some i))
  | _ => .ok placed

def placements (p : Procedure) : Except LinkError (Array (Option Nat)) :=
  p.body.toList.zipIdx.foldlM p.placeLabel (Array.replicate p.labels.size none)

def placedByName (p : Procedure) (placed : Array (Option Nat)) : Std.HashMap String LabelId :=
  (p.labels.zip placed).toList.zipIdx.foldl
    (fun m ((name, at?), l) => if at?.isSome then m.insert name l else m) ∅

/-! ## Jumps -/

/-- The label that the jump at statement `i` goes to. -/
def findTarget (p : Procedure) (placed : Array (Option Nat))
    (byName : Std.HashMap String LabelId) (i : Nat) : Target → Except LinkError LabelId
  | .label l =>
    match placed[l]? with
    | none => .error (.unknownLabel l i)
    | some none => .error (.undefinedLabel (p.labelName l) i)
    | some (some _) => .ok l
  | .name name =>
    match byName[name]? with
    | none => .error (.undefinedLabel name i)
    | some l => .ok l

/-- The label a statement jumps to, if it is a jump. -/
def findStmtTarget (p : Procedure) (placed : Array (Option Nat))
    (byName : Std.HashMap String LabelId) : Stmt × Nat → Except LinkError (Option LabelId)
  | (.jump target _ _, i) => some <$> p.findTarget placed byName i target
  | _ => .ok none

def findTargets (p : Procedure) (placed : Array (Option Nat)) :
    Except LinkError (Array (Option LabelId)) :=
  let byName := p.placedByName placed
  List.toArray <$> p.body.toList.zipIdx.mapM (p.findStmtTarget placed byName)

def countIncoming (p : Procedure) (targets : Array (Option LabelId)) : Array Nat :=
  targets.foldl
    (fun counts target? =>
      match target? with
      | some l => counts.modify l (· + 1)
      | none => counts)
    (Array.replicate p.labels.size 0)

/-! ## Uses of shared expressions -/

/-- Counts one step of a walk if it meets a shared expression. -/
def countShared (p : Procedure) (counts : Std.HashMap ExprId Nat) :
    Visit → Std.HashMap ExprId Nat
  | .stmt _ => counts
  | .expr e =>
    if (p.arena.get? e).any Node.isShared then counts.insert e (counts.getD e 0 + 1)
    else counts

/-- How often the walk meets each shared expression. -/
def sharedUses? (p : Procedure) : Option (Std.HashMap ExprId Nat) :=
  p.walk.map fun visits => visits.foldl p.countShared ∅

/-! ## Linking -/

/-- Links a complete procedure. -/
def linkage (p : Procedure) : Except LinkError Linkage := do
  let placements ← p.placements
  let targets ← p.findTargets placements
  match p.sharedUses? with
  | none => throw .danglingOperand
  | some sharedUses =>
    return { placements, targets, incoming := p.countIncoming targets, sharedUses }

end Procedure

/-- A procedure with what linking found. -/
structure LinkedProcedure where
  procedure : Procedure
  linkage : Linkage

/-- Links a complete procedure and keeps it beside what was found. -/
def Procedure.link (p : Procedure) : Except LinkError LinkedProcedure := do
  let linkage ← p.linkage
  return { procedure := p, linkage }

namespace LinkedProcedure

def target? (p : LinkedProcedure) (stmt : Nat) : Option LabelId :=
  p.linkage.targets.getD stmt none

def placement? (p : LinkedProcedure) (label : LabelId) : Option Nat :=
  p.linkage.placements.getD label none

def incoming (p : LinkedProcedure) (label : LabelId) : Nat :=
  p.linkage.incoming.getD label 0

/-- The number of places that use a shared expression, none for other expressions. -/
def totalUses (p : LinkedProcedure) (e : ExprId) : Nat :=
  p.linkage.sharedUses.getD e 0

/-- A tracker that has recorded no use yet. -/
def useTracker (p : LinkedProcedure) : UseTracker :=
  { totals := p.linkage.sharedUses }

end LinkedProcedure

end StackIR
