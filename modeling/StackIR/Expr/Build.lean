import StackIR.Expr.Basic

/-!
# Shared operands and borrowing calls

A value that is used at several places is wrapped once (`Arena.share`) and referred to from each
of them. A call that only borrows some of its arguments leaves the caller with a reference to each
of those, which `Arena.borrowCall` gives up right after the call:
`(seq (shared call) (decr arg)... (shared call))`.
-/

namespace StackIR.Arena

/-- Whether an expression can be used at several places as it is: a literal or a shared node. -/
def isReusable (a : Arena) (e : ExprId) : Bool :=
  (a.get? e).any fun n => n.isLiteral || n.isShared

/-- Makes an expression usable at several places, wrapping it unless it already is. -/
def share (a : Arena) (e : ExprId) : ExprId × Arena :=
  if a.isReusable e then (e, a) else a.add (.shared e)

/-- The arguments of a borrowing call, and the releases due after it. -/
structure Borrowed where
  args : List ExprId
  releases : List ExprId
deriving Repr, DecidableEq

/-- Shares each argument whose bit is set in `mask` and makes a release for it, from the left. The
first argument of the list is at position `i` of the call; positions past the mask are owned. -/
def borrow (a : Arena) (mask : BitVec 32) (i : Nat) : List ExprId → Borrowed × Arena
  | [] => (⟨[], []⟩, a)
  | e :: es =>
    if mask.getLsbD i then
      let (e, a) := a.share e
      let (r, a) := a.add (.release e)
      let (rest, a) := a.borrow mask (i + 1) es
      (⟨e :: rest.args, r :: rest.releases⟩, a)
    else
      let (rest, a) := a.borrow mask (i + 1) es
      (⟨e :: rest.args, rest.releases⟩, a)

/-- A runtime call that only borrows the arguments whose bit is set in `mask`. Where it borrows
none, this is the plain call. -/
def borrowCall (a : Arena) (name : String) (mask : BitVec 32) (isAsync : Bool)
    (args : List ExprId) : ExprId × Arena :=
  let (borrowed, a) := a.borrow mask 0 args
  let (call, a) := a.add (.runtimeCall name isAsync borrowed.args)
  if borrowed.releases.isEmpty then (call, a)
  else
    let (call, a) := a.share call
    a.add (.sequence (call :: borrowed.releases ++ [call]))

end StackIR.Arena
