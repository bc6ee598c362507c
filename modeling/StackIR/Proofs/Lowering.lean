import StackIR.Proofs.Growth

/-!
# Successful lowering of expressions

Lowering an expression reads the cell table and appends to the arena; it fails only on an undeclared
cell. The proofs about lowered expressions all follow the run of a lowering that succeeds, so that
run is taken apart once: `LoweringCases` lists the ways to make a node, and what holds of each of
them holds of every expression that is lowered (`LoweringCases.of_lowerExpr`).
-/

namespace StackIR.Script

theorem bind_eq_ok {α β : Type} {x : StateT Arena (Except LowerError) α}
    {f : α → StateT Arena (Except LowerError) β} {a b : Arena} {v : β} :
    (x >>= f) a = .ok (v, b) ↔ ∃ u a', x a = .ok (u, a') ∧ f u a' = .ok (v, b) := by
  simp only [bind, StateT.bind, Except.bind]
  cases x a with
  | error error => simp
  | ok r => simp [Prod.ext_iff]

theorem findCell_eq_ok {cells : CellTable} {name : String} {c : Cell} :
    findCell cells name = .ok c ↔ cells[name]? = some c := by
  unfold findCell
  cases cells[name]? <;> simp

/-- The node of an expression that has no operands and names no cell. -/
def Expr.leaf? : Expr → Option Node
  | .num value => some (.literal (.int value))
  | .bool value => some (.literal (.bool value))
  | .pointer label info => some (.pointer label info)
  | .jumpValue => some .jumpValue
  | _ => none

theorem lowerExpr_load_eq_ok {cells : CellTable} {name : String} {a b : Arena} {x : ExprId} :
    lowerExpr cells (.load name) a = .ok (x, b) ↔
      ∃ c, cells[name]? = some c ∧ c.load a = (x, b) := by
  rw [lowerExpr, bind_eq_ok]
  constructor
  · rintro ⟨c, a', hfind, hload⟩
    cases hc : findCell cells name with
    | error error => simp [hc, liftM, monadLift, MonadLift.monadLift, StateT.lift, bind,
        Except.bind] at hfind
    | ok d =>
        simp only [hc, liftM, monadLift, MonadLift.monadLift, StateT.lift, bind, Except.bind, pure,
          Except.pure, Except.ok.injEq, Prod.mk.injEq] at hfind
        obtain ⟨rfl, rfl⟩ := hfind
        exact ⟨d, findCell_eq_ok.mp hc, Except.ok.inj hload⟩
  · rintro ⟨c, hc, hload⟩
    refine ⟨c, a, ?_, congrArg Except.ok hload⟩
    simp [findCell_eq_ok.mpr hc, liftM, monadLift, MonadLift.monadLift, StateT.lift, bind,
      Except.bind, pure, Except.pure]

/-- A cell is found under the name it has just got. -/
theorem lowerExpr_load_insert (cells : CellTable) (name : String) (c : Cell) (a : Arena) :
    lowerExpr (cells.insert name c) (.load name) a = .ok (c.load a) :=
  lowerExpr_load_eq_ok.mpr ⟨c, Std.HashMap.getElem?_insert_self, rfl⟩

/-- The cell of the first counted local. -/
def countedLocal (name : String) : Cell where
  decl := 0
  name := some name
  captured := false
  written := false
  refCounted := true
  index := 0
  storage := .localVar

/-! ## The induction over a successful run -/

/-- What to show of each way to make nodes: `P` of an expression, the arena before, its node and
the arena after, and `Q` likewise of several expressions. -/
structure LoweringCases (cells : CellTable) (P : Expr → Arena → ExprId → Arena → Prop)
    (Q : List Expr → Arena → List ExprId → Arena → Prop) : Prop where
  leaf : ∀ {e : Expr} {n : Node} {a : Arena}, e.leaf? = some n → P e a a.size (a.add n).2
  load : ∀ {name : String} {c : Cell} {a : Arena}, cells[name]? = some c →
    P (.load name) a (c.load a).1 (c.load a).2
  call : ∀ {name : String} {mask : BitVec 32} {isAsync : Bool} {args : List Expr}
    {a b : Arena} {ids : List ExprId}, lowerExprs cells args a = .ok (ids, b) → Q args a ids b →
    P (.call name mask isAsync args) a (b.borrowCall name mask isAsync ids).1
      (b.borrowCall name mask isAsync ids).2
  procCall : ∀ {callee : ProcId} {isAsync : Bool} {args : List Expr} {a b : Arena}
    {ids : List ExprId}, lowerExprs cells args a = .ok (ids, b) → Q args a ids b →
    P (.procCall callee isAsync args) a b.size (b.add (.procCall callee isAsync ids)).2
  field : ∀ {e : Expr} {index : Nat} {a b : Arena} {x : ExprId},
    lowerExpr cells e a = .ok (x, b) → P e a x b →
    P (.field e index) a b.size (b.add (.field x index)).2
  sequence : ∀ {items : List Expr} {a b : Arena} {ids : List ExprId},
    lowerExprs cells items a = .ok (ids, b) → Q items a ids b →
    P (.sequence items) a b.size (b.add (.sequence ids)).2
  nil : ∀ {a : Arena}, Q [] a [] a
  cons : ∀ {e : Expr} {es : List Expr} {a b c : Arena} {x : ExprId} {xs : List ExprId},
    lowerExpr cells e a = .ok (x, b) → lowerExprs cells es b = .ok (xs, c) →
    P e a x b → Q es b xs c → Q (e :: es) a (x :: xs) c

namespace LoweringCases

variable {cells : CellTable} {P : Expr → Arena → ExprId → Arena → Prop}
  {Q : List Expr → Arena → List ExprId → Arena → Prop}

mutual

/-- What holds of each way to make nodes holds of every expression that is lowered. -/
theorem of_lowerExpr (hP : LoweringCases cells P Q) : ∀ {e : Expr} {a b : Arena} {x : ExprId},
    lowerExpr cells e a = .ok (x, b) → P e a x b
  | .num _, _, _, _, h | .bool _, _, _, _, h | .pointer .., _, _, _, h
  | .jumpValue, _, _, _, h => by
      rw [lowerExpr] at h
      obtain ⟨rfl, rfl⟩ := Prod.mk.injEq .. |>.mp (Except.ok.inj h)
      exact hP.leaf rfl
  | .load _, _, _, _, h => by
      obtain ⟨c, hc, hload⟩ := lowerExpr_load_eq_ok.mp h
      obtain ⟨rfl, rfl⟩ := Prod.ext_iff.mp hload
      exact hP.load hc
  | .call .., _, _, _, h => by
      rw [lowerExpr, bind_eq_ok] at h
      obtain ⟨ids, b, hargs, h⟩ := h
      obtain ⟨rfl, rfl⟩ := Prod.ext_iff.mp (Except.ok.inj h)
      exact hP.call hargs (of_lowerExprs hP hargs)
  | .procCall .., _, _, _, h => by
      rw [lowerExpr, bind_eq_ok] at h
      obtain ⟨ids, b, hargs, h⟩ := h
      obtain ⟨rfl, rfl⟩ := Prod.mk.injEq .. |>.mp (Except.ok.inj h)
      exact hP.procCall hargs (of_lowerExprs hP hargs)
  | .field .., _, _, _, h => by
      rw [lowerExpr, bind_eq_ok] at h
      obtain ⟨x, b, he, h⟩ := h
      obtain ⟨rfl, rfl⟩ := Prod.mk.injEq .. |>.mp (Except.ok.inj h)
      exact hP.field he (of_lowerExpr hP he)
  | .sequence _, _, _, _, h => by
      rw [lowerExpr, bind_eq_ok] at h
      obtain ⟨ids, b, hitems, h⟩ := h
      obtain ⟨rfl, rfl⟩ := Prod.mk.injEq .. |>.mp (Except.ok.inj h)
      exact hP.sequence hitems (of_lowerExprs hP hitems)

theorem of_lowerExprs (hP : LoweringCases cells P Q) :
    ∀ {es : List Expr} {a b : Arena} {xs : List ExprId},
      lowerExprs cells es a = .ok (xs, b) → Q es a xs b
  | [], _, _, _, h => by
      rw [lowerExprs] at h
      obtain ⟨rfl, rfl⟩ := Prod.mk.injEq .. |>.mp (Except.ok.inj h)
      exact hP.nil
  | e :: es, _, _, _, h => by
      rw [lowerExprs, bind_eq_ok] at h
      obtain ⟨x, b, he, h⟩ := h
      rw [bind_eq_ok] at h
      obtain ⟨xs, c, hes, h⟩ := h
      obtain ⟨rfl, rfl⟩ := Prod.mk.injEq .. |>.mp (Except.ok.inj h)
      exact hP.cons he hes (of_lowerExpr hP he) (of_lowerExprs hP hes)

end

end LoweringCases

/-! ## What lowering does to the arena -/

/-- The nodes of several expressions stand between the arena before and the arena after. -/
structure AppendsAll (a : Arena) (xs : List ExprId) (b : Arena) : Prop where
  growsTo : a.GrowsTo b
  mem_range : ∀ x ∈ xs, a.size ≤ x ∧ x < b.size

private theorem appendsCases (cells : CellTable) :
    LoweringCases cells (fun _ a x b => a.Appends x b) (fun _ a xs b => AppendsAll a xs b) where
  leaf _ := Arena.appends_add _ _
  load _ := Cell.appends_load _ _
  call _ h := (Arena.appends_borrowCall _ _ _ _ _).of_growsTo h.growsTo
  procCall _ h := (Arena.appends_add _ _).of_growsTo h.growsTo
  field _ h := (Arena.appends_add _ _).of_growsTo h.growsTo
  sequence _ h := (Arena.appends_add _ _).of_growsTo h.growsTo
  nil := ⟨Arena.GrowsTo.refl _, by simp⟩
  cons _ _ h hs := by
    refine ⟨h.growsTo.trans hs.growsTo, fun y hy => ?_⟩
    rcases List.mem_cons.mp hy with rfl | hy
    · exact ⟨h.size_le, Nat.lt_of_lt_of_le h.lt_size hs.growsTo.size_le⟩
    · exact ⟨Nat.le_trans h.growsTo.size_le (hs.mem_range y hy).1, (hs.mem_range y hy).2⟩

theorem appends_lowerExpr {cells : CellTable} {e : Expr} {a b : Arena} {x : ExprId}
    (h : lowerExpr cells e a = .ok (x, b)) : a.Appends x b :=
  (appendsCases cells).of_lowerExpr h

theorem appends_lowerExprs {cells : CellTable} {es : List Expr} {a b : Arena} {xs : List ExprId}
    (h : lowerExprs cells es a = .ok (xs, b)) : AppendsAll a xs b :=
  (appendsCases cells).of_lowerExprs h

end StackIR.Script
