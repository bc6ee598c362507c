import StackIR.Proofs.Emitting
import StackIR.Proofs.Translation

/-!
# Relocation of lowered expressions

Lowering an expression does not depend on the nodes that are there already. Behind any arena it
appends what it makes on its own, with the operands moved along by the size of that arena, and it
fails with the error it fails with on its own (`Script.addsBehind_lowerExpr`).

`Arena.followedBy` puts the nodes of one arena behind those of another. This translates arenas
(`Arena.translates_followedBy`), so every operation commutes with it, and with them all of lowering
(`Script.relocates_lowerExpr`). Sharing looks at a node that was made before, but whether that can
be used again as it is depends on the node alone, wherever it stands
(`Arena.isReusable_followedBy`).
-/

namespace StackIR

/-- The node with its operands moved along by some positions. -/
def Node.shiftOperands (k : Nat) : Node → Node
  | .runtimeCall name isAsync args => .runtimeCall name isAsync (args.map (k + ·))
  | .procCall callee isAsync args => .procCall callee isAsync (args.map (k + ·))
  | .shared e => .shared (k + e)
  | .field e index => .field (k + e) index
  | .store target value => .store (k + target) (k + value)
  | .retain e => .retain (k + e)
  | .release e => .release (k + e)
  | .sequence items => .sequence (items.map (k + ·))
  | n => n

theorem Node.shiftOperands_eq (k : Nat) (n : Node) : n.shiftOperands k = n.map (k + ·) id := by
  cases n <;> rfl

@[simp] theorem Node.operands_shiftOperands (k : Nat) (n : Node) :
    (n.shiftOperands k).operands = n.operands.map (k + ·) := by
  rw [shiftOperands_eq, operands_map]

namespace Arena

/-- The nodes of an arena with those of another behind them, whose operands move along. -/
def followedBy (a c : Arena) : Arena :=
  ⟨a.nodes ++ c.nodes.map (Node.shiftOperands a.size)⟩

/-- What an operation makes of an arena, behind another arena. -/
def relocate (a : Arena) (r : ExprId × Arena) : ExprId × Arena :=
  (a.size + r.1, a.followedBy r.2)

variable (a c : Arena)

@[simp] theorem followedBy_empty : a.followedBy {} = a := by
  simp [followedBy]

theorem get?_followedBy (x : ExprId) :
    (a.followedBy c).get? (a.size + x) = (c.get? x).map (Node.shiftOperands a.size) := by
  simp [followedBy, get?, size, Array.getElem?_append_right]

theorem isReusable_followedBy (x : ExprId) :
    (a.followedBy c).isReusable (a.size + x) = c.isReusable x := by
  simp [isReusable, get?_followedBy, Option.any_map, Node.shiftOperands_eq]

theorem add_followedBy {m n : Node} (h : m = n.shiftOperands a.size) :
    (a.followedBy c).add m = a.relocate (c.add n) := by
  subst h
  simp [add, relocate, followedBy, size]

theorem translates_followedBy : Translates (a.size + ·) id a.followedBy where
  add_eq c n := a.add_followedBy c (n.shiftOperands_eq a.size).symm
  isReusable_eq := a.isReusable_followedBy
  isBoxed_eq _ := rfl
  refCounted_eq _ := rfl

end Arena

namespace Script

/-- Behind the nodes of `a`, `x` does what `y` does on its own, but that the result moves along. -/
def Relocates {α : Type} (a : Arena) (move : α → α) (x y : StateT Arena (Except LowerError) α) :
    Prop :=
  ∀ c, x (a.followedBy c) = (y c).map (Prod.map move a.followedBy)

namespace Relocates

variable {α β : Type} {a : Arena}

theorem pure {move : α → α} (v : α) : Relocates a move (pure (move v)) (pure v) :=
  fun _ => rfl

theorem modifyGet {f g : Arena → ExprId × Arena}
    (h : ∀ c, f (a.followedBy c) = a.relocate (g c)) :
    Relocates a (a.size + ·) (modifyGet f) (modifyGet g) :=
  fun c => congrArg Except.ok (h c)

theorem bind {move : α → α} {move' : β → β} {x y : StateT Arena (Except LowerError) α}
    {f g : α → StateT Arena (Except LowerError) β} (hx : Relocates a move x y)
    (hf : ∀ v, Relocates a move' (f (move v)) (g v)) : Relocates a move' (x >>= f) (y >>= g) := by
  intro c
  show (x (a.followedBy c) >>= fun r => f r.1 r.2) = (y c >>= fun r => g r.1 r.2).map _
  rw [hx c]
  cases y c with
  | error error => rfl
  | ok r => exact hf r.1 r.2

end Relocates

section Lowering

variable (cells : CellTable) (a : Arena)

theorem relocates_findCell (name : String) :
    Relocates a id (liftM (findCell cells name)) (liftM (findCell cells name)) := by
  intro c
  cases findCell cells name <;> rfl

mutual

/-- Lowering an expression behind the nodes of an arena moves along what it makes on its own. -/
theorem relocates_lowerExpr :
    ∀ e : Expr, Relocates a (a.size + ·) (lowerExpr cells e) (lowerExpr cells e)
  | .num _ | .bool _ | .pointer .. | .jumpValue => .modifyGet fun c => a.add_followedBy c rfl
  | .load name => (relocates_findCell cells a name).bind fun cell =>
      .modifyGet (a.translates_followedBy.load cell)
  | .call name mask isAsync args => (relocates_lowerExprs args).bind fun ids =>
      .modifyGet fun c => a.translates_followedBy.borrowCall c name mask isAsync ids
  | .procCall _ _ args => (relocates_lowerExprs args).bind fun _ =>
      .modifyGet fun c => a.add_followedBy c rfl
  | .field e _ => (relocates_lowerExpr e).bind fun _ =>
      .modifyGet fun c => a.add_followedBy c rfl
  | .sequence items => (relocates_lowerExprs items).bind fun _ =>
      .modifyGet fun c => a.add_followedBy c rfl

theorem relocates_lowerExprs :
    ∀ es : List Expr,
      Relocates a (List.map (a.size + ·)) (lowerExprs cells es) (lowerExprs cells es)
  | [] => .pure []
  | e :: es => (relocates_lowerExpr e).bind fun x => (relocates_lowerExprs es).bind fun xs =>
      .pure (x :: xs)

end

end Lowering

/-- What a procedure has gained when an expression, which on its own becomes the node `x` of `b`, has
become its node `x'`. -/
structure Emission.AddsBehind (m : Emission) (x : ExprId) (b : Arena) (x' : ExprId)
    (m' : Emission) : Prop where
  /-- The body, the labels and the cells stay as they are, and whatever else is no expression. -/
  withArena_eq : m' = m.withArena m'.procedure.arena
  nodes_eq : m'.procedure.arena.nodes = m.procedure.arena.nodes ++
    b.nodes.map (Node.shiftOperands m.procedure.arena.size)
  position_eq : x' = m.procedure.arena.size + x
  isLast : x' + 1 = m'.procedure.arena.size
  /-- The operands of the new nodes are new themselves. -/
  isSelfContained : ∀ e n, m.procedure.arena.size ≤ e → m'.procedure.arena.get? e = some n →
    ∀ y ∈ n.operands, m.procedure.arena.size ≤ y ∧ y < e

theorem isSelfContained_followedBy {a c : Arena} (hc : c.OperandsPrecede) {e : ExprId} {n : Node}
    (he : a.size ≤ e) (hn : (a.followedBy c).get? e = some n) :
    ∀ y ∈ n.operands, a.size ≤ y ∧ y < e := by
  obtain ⟨k, rfl⟩ := Nat.exists_eq_add_of_le he
  rw [Arena.get?_followedBy] at hn
  obtain ⟨own, hown, rfl⟩ := Option.map_eq_some_iff.mp hn
  intro y hy
  rw [Node.operands_shiftOperands] at hy
  obtain ⟨x, hx, rfl⟩ := List.mem_map.mp hy
  exact ⟨Nat.le_add_right _ _, Nat.add_lt_add_left (hc k own hown x hx) _⟩

/-- Lowering an expression behind any arena fails as it does on its own, and else appends what it
makes on its own. -/
theorem addsBehind_lowerExpr (cells : CellTable) (e : Expr) (m : Emission) :
    match lowerExpr cells e {} with
    | .error error => m.build (lowerExpr cells e) = .error error
    | .ok (x, b) => ∃ x' m', m.build (lowerExpr cells e) = .ok (x', m') ∧
        m.AddsBehind x b x' m' := by
  have hrelocates := relocates_lowerExpr cells m.procedure.arena e {}
  rw [Arena.followedBy_empty] at hrelocates
  cases hown : lowerExpr cells e {} with
  | error error =>
      rw [hown] at hrelocates
      simp only [Emission.build, hrelocates]
      rfl
  | ok r =>
      obtain ⟨x, b⟩ := r
      rw [hown] at hrelocates
      have hbuilt : Arena.BuildsTo {} b := (Evaluates.expr hown).buildsTo.1
      refine ⟨_, _, build_eq_ok.mpr ⟨_, hrelocates, rfl⟩, rfl, rfl, rfl, ?_, ?_⟩
      · exact (appends_lowerExpr hrelocates).succ_eq
      · intro e n he hn
        exact isSelfContained_followedBy (Arena.operandsPrecede_empty.buildsTo hbuilt) he hn

end Script

end StackIR
