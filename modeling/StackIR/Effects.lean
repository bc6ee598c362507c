import StackIR.UseTracker

/-!
# Effects of expressions

What a code generator asks before it reorders or repeats an evaluation: whether an expression can
be evaluated again for free, and whether evaluating it may write a cell. Both depend on which
shared expressions have been computed already. They fail on an expression outside the arena.
-/

namespace StackIR.Arena

/-- Whether evaluating an expression again has no effect and yields the same value: a literal, or
a shared expression that has been computed. -/
def isStateless? (a : Arena) (uses : UseTracker) (e : ExprId) : Option Bool :=
  (a.get? e).map fun n => n.isLiteral || (n.isShared && uses.current e ≠ 0)

/-- Whether evaluating an expression may write a cell. Calls and sequences are taken to write. -/
def mayWriteCells? (a : Arena) (uses : UseTracker) (e : ExprId) : Option Bool :=
  match a.get? e with
  | none => none
  | some (.literal _) | some (.pointer ..) | some (.cell _) | some .jumpValue => some false
  | some (.store ..) | some (.runtimeCall ..) | some (.procCall ..) | some (.sequence _) =>
    some true
  | some (.shared x) =>
    if uses.current e ≠ 0 then some false
    else if x < e then a.mayWriteCells? uses x else none
  | some (.retain x) | some (.release x) | some (.field x _) =>
    if x < e then a.mayWriteCells? uses x else none
termination_by e

end StackIR.Arena
