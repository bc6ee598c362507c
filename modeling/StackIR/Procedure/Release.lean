import StackIR.Cell.Access
import StackIR.Procedure.Basic

/-!
# Leaving a scope

On the way out a frame gives up the references it holds through its own cells: those of counted
locals and arguments, and the boxes of boxed locals. Cells it does not own cannot be released.
-/

namespace StackIR

/-- Why a cell cannot be released at the end of a scope. -/
inductive ReleaseError where
  /-- The cell with this text is global or captured, so the frame does not own it. -/
  | notOwned (cell : String)
deriving Repr, DecidableEq

def ReleaseError.message : ReleaseError → String
  | .notOwned cell =>
    "cell " ++ cell ++ " can't be released at scope exit, only locals and arguments can"

def Cell.isOwned (c : Cell) : Bool :=
  c.storage = .argument || c.storage = .localVar

/-- A change of a procedure that can stop at a cell. What it did before that stays. -/
abbrev Releasing := ExceptT ReleaseError (StateM Procedure)

namespace Procedure

/-- Gives up the reference the frame holds through one of its cells, if it holds one. -/
def releaseCell (c : Cell) : Releasing Unit :=
  if !c.isOwned then throw (.notOwned c.text)
  else if c.isManaged then
    modify fun p =>
      let (e, p) := p.build fun a =>
        let (slot, a) := c.slot a
        a.add (.release slot)
      p.emit (.expr e)
  else pure ()

/-- Gives up the references held through all locals and then all arguments. The entry point of
the program keeps them. -/
def releaseAll : Releasing Unit := do
  let p ← get
  if p.isRoot then pure ()
  else (p.locals.toList ++ p.args.toList).forM releaseCell

end Procedure

end StackIR
