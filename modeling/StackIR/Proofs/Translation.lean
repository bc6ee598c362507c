import StackIR.Cell.Access
import StackIR.Proofs.Growth

/-!
# Translated arenas

The operations on arenas know an operand by its position alone and look at nothing of a cell but
whether it is boxed or counted. So whatever moves positions along and puts other such cells in place
of the cells, node by node, commutes with all of them (`Arena.Translates`): it comes to the same
whether an arena is translated before an operation or after it.
-/

namespace StackIR

/-- The node with its operands moved and its cell replaced. -/
def Node.map (move : ExprId → ExprId) (onCell : Cell → Cell) : Node → Node
  | .literal value => .literal value
  | .pointer label info => .pointer label info
  | .runtimeCall name isAsync args => .runtimeCall name isAsync (args.map move)
  | .procCall callee isAsync args => .procCall callee isAsync (args.map move)
  | .shared e => .shared (move e)
  | .field e index => .field (move e) index
  | .store target value => .store (move target) (move value)
  | .cell c => .cell (onCell c)
  | .retain e => .retain (move e)
  | .release e => .release (move e)
  | .sequence items => .sequence (items.map move)
  | .jumpValue => .jumpValue

section Nodes

variable (move : ExprId → ExprId) (onCell : Cell → Cell) (n : Node)

@[simp] theorem Node.operands_map : (n.map move onCell).operands = n.operands.map move := by
  cases n <;> rfl

@[simp] theorem Node.isLiteral_map : (n.map move onCell).isLiteral = n.isLiteral := by
  cases n <;> rfl

@[simp] theorem Node.isShared_map : (n.map move onCell).isShared = n.isShared := by
  cases n <;> rfl

end Nodes

namespace Arena

/-- What borrowing hands on, with the positions moved. -/
def Borrowed.map (move : ExprId → ExprId) (r : Borrowed) : Borrowed :=
  ⟨r.args.map move, r.releases.map move⟩

/-- Arenas are carried over to others, where nodes are added as they are here, but for their
operands, which are moved, and their cells, which are replaced by similar ones. -/
structure Translates (move : ExprId → ExprId) (onCell : Cell → Cell) (φ : Arena → Arena) :
    Prop where
  add_eq : ∀ a n, (φ a).add (n.map move onCell) = Prod.map move φ (a.add n)
  isReusable_eq : ∀ a e, (φ a).isReusable (move e) = a.isReusable e
  isBoxed_eq : ∀ c, (onCell c).isBoxed = c.isBoxed
  refCounted_eq : ∀ c, (onCell c).refCounted = c.refCounted

namespace Translates

variable {move : ExprId → ExprId} {onCell : Cell → Cell} {φ : Arena → Arena}

theorem add (h : Translates move onCell φ) (a : Arena) {m n : Node} (hm : m = n.map move onCell) :
    (φ a).add m = Prod.map move φ (a.add n) := by
  rw [hm]
  exact h.add_eq a n

theorem add_cell (h : Translates move onCell φ) (a : Arena) (c : Cell) :
    (φ a).add (.cell (onCell c)) = Prod.map move φ (a.add (.cell c)) :=
  h.add_eq a (.cell c)

theorem add_release (h : Translates move onCell φ) (a : Arena) (e : ExprId) :
    (φ a).add (.release (move e)) = Prod.map move φ (a.add (.release e)) :=
  h.add_eq a (.release e)

theorem add_runtimeCall (h : Translates move onCell φ) (a : Arena) (name : String)
    (isAsync : Bool) (args : List ExprId) :
    (φ a).add (.runtimeCall name isAsync (args.map move)) =
      Prod.map move φ (a.add (.runtimeCall name isAsync args)) :=
  h.add_eq a (.runtimeCall name isAsync args)

theorem share (h : Translates move onCell φ) (a : Arena) (e : ExprId) :
    (φ a).share (move e) = Prod.map move φ (a.share e) := by
  unfold Arena.share
  rw [h.isReusable_eq]
  cases a.isReusable e with
  | true => rfl
  | false => exact h.add_eq a (.shared e)

theorem borrow (h : Translates move onCell φ) (mask : BitVec 32) (es : List ExprId) :
    ∀ (a : Arena) (i : Nat), (φ a).borrow mask i (es.map move) =
      Prod.map (Borrowed.map move) φ (a.borrow mask i es) := by
  induction es with
  | nil => exact fun _ _ => rfl
  | cons e es ih =>
      intro a i
      cases hbit : mask.getLsbD i with
      | true =>
          rw [List.map_cons, borrow_cons_of_bit hbit, borrow_cons_of_bit hbit, h.share]
          simp only [Prod.map_fst, Prod.map_snd]
          rw [h.add_release]
          simp only [Prod.map_fst, Prod.map_snd, ih]
          rfl
      | false =>
          rw [List.map_cons, borrow_cons_of_not_bit hbit, borrow_cons_of_not_bit hbit, ih]
          rfl

theorem borrowCall (h : Translates move onCell φ) (a : Arena) (name : String) (mask : BitVec 32)
    (isAsync : Bool) (args : List ExprId) :
    (φ a).borrowCall name mask isAsync (args.map move) =
      Prod.map move φ (a.borrowCall name mask isAsync args) := by
  unfold Arena.borrowCall
  rw [h.borrow]
  simp only [Prod.map_fst, Prod.map_snd, Borrowed.map, List.isEmpty_map]
  generalize a.borrow mask 0 args = r
  rw [h.add_runtimeCall]
  cases r.1.releases.isEmpty with
  | true => rfl
  | false =>
      simp only [Prod.map_fst, Prod.map_snd, h.share, Bool.false_eq_true, if_false]
      rw [← h.add_eq]
      simp [Node.map]

theorem load (h : Translates move onCell φ) (c : Cell) (a : Arena) :
    (onCell c).load (φ a) = Prod.map move φ (c.load a) := by
  have hreader : (onCell c).boxReader = c.boxReader := by
    simp only [Cell.boxReader, Cell.helperSuffix, h.refCounted_eq]
  unfold Cell.load Cell.slot
  rw [h.add_cell, h.isBoxed_eq, h.refCounted_eq, hreader]
  simp only [Prod.map_fst, Prod.map_snd]
  cases c.isBoxed with
  | true =>
      simp only [if_true]
      rw [← List.map_singleton, h.add_runtimeCall]
      cases c.refCounted with
      | true => exact h.add_eq _ (.retain _)
      | false => rfl
  | false =>
      cases c.refCounted with
      | true => exact h.add_eq _ (.retain _)
      | false => rfl

theorem storeSlot (h : Translates move onCell φ) (c : Cell) (value : ExprId) (a : Arena) :
    (onCell c).storeSlot (move value) (φ a) = Prod.map move φ (c.storeSlot value a) := by
  unfold Cell.storeSlot Cell.slot
  rw [h.add_cell]
  exact h.add_eq _ (.store _ value)

theorem assign (h : Translates move onCell φ) (c : Cell) (value : ExprId) (a : Arena) :
    (onCell c).assign (move value) (φ a) = Prod.map move φ (c.assign value a) := by
  have hwriter : (onCell c).boxWriter = c.boxWriter := by
    simp only [Cell.boxWriter, Cell.helperSuffix, h.refCounted_eq]
  unfold Cell.assign
  rw [h.isBoxed_eq, hwriter, h.storeSlot]
  unfold Cell.slot
  rw [h.add_cell]
  cases c.isBoxed with
  | true => exact h.add_eq _ (.runtimeCall _ false [_, value])
  | false => rfl

end Translates

end Arena

end StackIR
