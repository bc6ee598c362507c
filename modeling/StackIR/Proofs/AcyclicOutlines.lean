import Mathlib.Data.Fintype.Card
import Mathlib.Logic.Relation
import StackIR.Proofs.Outlining

/-!
# Outlines of acyclic arenas

What an outline is does not depend on where operands stand. `Arena.Outlines` says how a node is
outlined in any arena, and `Arena.outline` follows it where it succeeds (`outlines_of_outline`).
There is at most one outline (`Outlines.unique`), and in an arena without cycles there is one
(`Acyclic.exists_outlines`), also of nodes with operands behind them. Every node that an outline
shows in full is that of the arena (`Outlines.draws`).
-/

namespace StackIR

/-! ## The relation -/

namespace Arena

mutual

/-- The outline of a node behind some shared nodes that are shown, and those shown by then. -/
inductive Outlines (a : Arena) : ExprId → Shown → Outline → Shown → Prop where
  | again {e : ExprId} {n : Node} {shown : Shown} : a.get? e = some n → n.isShared = true →
    shown.contains e = true → Outlines a e shown (.again e) shown
  | full {e : ExprId} {n : Node} {shown shown' : Shown} {os : List Outline} :
    a.get? e = some n → (n.isShared = true → shown.contains e = false) →
    OutlinesEach a n.operands (showing n e shown) os shown' →
    Outlines a e shown (.full e n os) shown'

inductive OutlinesEach (a : Arena) : List ExprId → Shown → List Outline → Shown → Prop where
  | nil {shown : Shown} : OutlinesEach a [] shown [] shown
  | cons {x : ExprId} {xs : List ExprId} {shown s shown' : Shown} {o : Outline}
    {os : List Outline} : Outlines a x shown o s → OutlinesEach a xs s os shown' →
    OutlinesEach a (x :: xs) shown (o :: os) shown'

end

variable {a : Arena}

theorem outlines_of_outline {e : ExprId} {shown shown' : Shown} {o : Outline}
    (h : a.outline e shown = some (o, shown')) : a.Outlines e shown o shown' := by
  have hcases : OutlineCases a a.Outlines a.OutlinesEach :=
    ⟨.again, fun he hnew _ _ hos => .full he hnew hos, .nil, fun _ ho hos => .cons ho hos⟩
  exact hcases.of_outline h

mutual

/-- A node has at most one outline. -/
theorem Outlines.unique : ∀ {e : ExprId} {shown s s' : Shown} {o o' : Outline},
    a.Outlines e shown o s → a.Outlines e shown o' s' → o = o' ∧ s = s'
  | _, _, _, _, _, _, .again he hshared hold, h' => by
      cases h' with
      | again => exact ⟨rfl, rfl⟩
      | full he' hnew =>
          obtain rfl := Option.some.inj (he.symm.trans he')
          rw [hnew hshared] at hold
          cases hold
  | _, _, _, _, _, _, .full he hnew hos, h' => by
      cases h' with
      | again he' hshared hold =>
          obtain rfl := Option.some.inj (he.symm.trans he')
          rw [hnew hshared] at hold
          cases hold
      | full he' _ hos' =>
          obtain rfl := Option.some.inj (he.symm.trans he')
          obtain ⟨rfl, rfl⟩ := OutlinesEach.unique hos hos'
          exact ⟨rfl, rfl⟩

theorem OutlinesEach.unique : ∀ {xs : List ExprId} {shown s s' : Shown} {os os' : List Outline},
    a.OutlinesEach xs shown os s → a.OutlinesEach xs shown os' s' → os = os' ∧ s = s'
  | _, _, _, _, _, _, .nil, h' => by
      cases h'
      exact ⟨rfl, rfl⟩
  | _, _, _, _, _, _, .cons ho hos, h' => by
      cases h' with
      | cons ho' hos' =>
          obtain ⟨rfl, rfl⟩ := Outlines.unique ho ho'
          obtain ⟨rfl, rfl⟩ := OutlinesEach.unique hos hos'
          exact ⟨rfl, rfl⟩

end

/-- Where operands stand before their nodes, the outline is found. -/
theorem OperandsPrecede.outline_eq_some_iff (ha : a.OperandsPrecede) {e : ExprId}
    (he : e < a.size) {shown s : Shown} {o : Outline} :
    a.outline e shown = some (o, s) ↔ a.Outlines e shown o s := by
  constructor
  · exact outlines_of_outline
  · intro h
    obtain ⟨o', s', ho'⟩ := ha.exists_outline he shown
    obtain ⟨rfl, rfl⟩ := h.unique (outlines_of_outline ho')
    exact ho'

/-! ## Acyclic arenas -/

/-- One node is an operand of another. -/
def IsOperand (a : Arena) (x e : ExprId) : Prop :=
  ∃ n, a.get? e = some n ∧ x ∈ n.operands

/-- Every operand is in the arena, and no node is below itself. -/
structure Acyclic (a : Arena) : Prop where
  lt_size : ∀ x e, a.IsOperand x e → x < a.size
  not_below : ∀ e, ¬ Relation.TransGen a.IsOperand e e

theorem OperandsPrecede.acyclic (ha : a.OperandsPrecede) : a.Acyclic := by
  have hlt : ∀ x e, a.IsOperand x e → x < e := by
    rintro x e ⟨n, hn, hx⟩
    exact ha e n hn x hx
  constructor
  case lt_size =>
    rintro x e ⟨n, hn, hx⟩
    exact Nat.lt_trans (ha e n hn x hx) (lt_size_of_get? hn)
  case not_below =>
    intro e hbelow
    have hless : ∀ y, Relation.TransGen a.IsOperand e y → e < y := by
      intro y hy
      induction hy with
      | single h => exact hlt _ _ h
      | tail _ h ih => exact Nat.lt_trans ih (hlt _ _ h)
    exact Nat.lt_irrefl e (hless e hbelow)

theorem exists_outlinesEach {xs : List ExprId}
    (h : ∀ x ∈ xs, ∀ shown, ∃ o s, a.Outlines x shown o s) (shown : Shown) :
    ∃ os s, a.OutlinesEach xs shown os s := by
  induction xs generalizing shown with
  | nil => exact ⟨[], shown, .nil⟩
  | cons x xs ih =>
      obtain ⟨o, s, ho⟩ := h x List.mem_cons_self shown
      obtain ⟨os, s', hos⟩ := ih (fun y hy => h y (List.mem_cons_of_mem x hy)) s
      exact ⟨o :: os, s', .cons ho hos⟩

/-- Every node of an acyclic arena has an outline. -/
theorem Acyclic.exists_outlines (ha : a.Acyclic) {e : ExprId} (he : e < a.size) (shown : Shown) :
    ∃ o s, a.Outlines e shown o s := by
  let Below (x y : Fin a.size) : Prop := Relation.TransGen a.IsOperand x y
  have : IsTrans (Fin a.size) Below := ⟨fun _ _ _ => Relation.TransGen.trans⟩
  have : Std.Irrefl Below := ⟨fun x => ha.not_below x⟩
  have hwf : WellFounded Below := Finite.wellFounded_of_trans_of_irrefl Below
  have hall : ∀ (x : Fin a.size) (shown : Shown), ∃ o s, a.Outlines x shown o s := by
    intro x
    induction x using hwf.induction with
    | _ x ih =>
        intro shown
        obtain ⟨n, hn⟩ := exists_get?_of_lt x.isLt
        by_cases hagain : n.isShared = true ∧ shown.contains x = true
        · exact ⟨_, _, .again hn hagain.1 hagain.2⟩
        · have hoperands : ∀ y ∈ n.operands, ∀ shown, ∃ o s, a.Outlines y shown o s := by
            intro y hy
            have hoperand : a.IsOperand y x := ⟨n, hn, hy⟩
            exact ih ⟨y, ha.lt_size y x hoperand⟩ (.single hoperand)
          obtain ⟨os, s, hos⟩ := exists_outlinesEach hoperands (showing n x shown)
          refine ⟨_, _, .full hn (fun hshared => ?_) hos⟩
          simpa [hshared] using hagain
  exact hall ⟨e, he⟩ shown

end Arena

/-! ## Nodes shown in full -/

namespace Outline

mutual

/-- Every node shown in full is that of the arena, with an outline for each operand. -/
def Draws (a : Arena) : Outline → Prop
  | .again _ => True
  | .full e n operands =>
    a.get? e = some n ∧ operands.length = n.operands.length ∧ DrawsEach a operands

def DrawsEach (a : Arena) : List Outline → Prop
  | [] => True
  | o :: os => o.Draws a ∧ DrawsEach a os

end

end Outline

namespace Arena

variable {a : Arena}

mutual

theorem Outlines.draws : ∀ {e : ExprId} {shown s : Shown} {o : Outline},
    a.Outlines e shown o s → o.Draws a
  | _, _, _, _, .again _ _ _ => by simp [Outline.Draws]
  | _, _, _, _, .full hn _ hos => by
      rw [Outline.Draws]
      exact ⟨hn, hos.drawsEach⟩

theorem OutlinesEach.drawsEach : ∀ {xs : List ExprId} {shown s : Shown} {os : List Outline},
    a.OutlinesEach xs shown os s → os.length = xs.length ∧ Outline.DrawsEach a os
  | _, _, _, _, .nil => by simp [Outline.DrawsEach]
  | _, _, _, _, .cons ho hos => by
      have hfirst := ho.draws
      have hrest := hos.drawsEach
      simpa [Outline.DrawsEach] using ⟨hrest.1, hfirst, hrest.2⟩

end

end Arena

/-! ## Names -/

/-- The name a node is shown with, that of a call, a pointer or a cell. -/
def Node.name? : Node → Option String
  | .runtimeCall name _ _ => some name
  | .pointer label _ => some label
  | .cell c => c.name
  | _ => none

end StackIR
