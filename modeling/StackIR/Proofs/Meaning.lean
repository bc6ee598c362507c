import StackIR.Proofs.Borrowing
import StackIR.Proofs.Lowering

/-!
# The meaning of script expressions

What an expression of a script does on a machine is said directly, without nodes or sharing
(`Expr.meaning`). Lowering keeps that meaning: the node of a lowered expression evaluates to the
same value with the same effects in the same order (`eval_lowerExpr`), in every arena that has grown
from it and in every session that knows nothing yet of the nodes made for it.
-/

namespace StackIR

universe u

variable {V W : Type u}

/-! ## The direct meaning -/

/-- Reads a variable: its slot, then its box if it has one, and retains a counted value. -/
def Machine.load (M : Machine V W) (c : Cell) (r : Run V W) : V × Run V W :=
  let (v, r) := M.perform (.slot c) r
  let (v, r) :=
    if c.isBoxed then
      M.perform (.call (if c.refCounted then "bitvm::ldlocRef" else "bitvm::ldloc") false [v]) r
    else (v, r)
  if c.refCounted then (v, (M.perform (.retain v) r).2) else (v, r)

namespace Script

mutual

/-- The value of an expression and the run after it. It fails on an undeclared cell. -/
def Expr.meaning (M : Machine V W) (cells : CellTable) : Expr → Run V W → Option (V × Run V W)
  | .num value, r => some (M.literal (.int value), r)
  | .bool value, r => some (M.literal (.bool value), r)
  | .pointer label info, r => some (M.pointer label info, r)
  | .load name, r => cells[name]?.map fun c => M.load c r
  | .call name mask isAsync args, r => do
    let (vs, r) ← meanings M cells args r
    return M.borrowingCall name mask isAsync vs r
  | .procCall callee isAsync args, r => do
    let (vs, r) ← meanings M cells args r
    return M.perform (.procCall callee isAsync vs) r
  | .field e index, r => do
    let (v, r) ← e.meaning M cells r
    return (M.field v index, r)
  | .sequence items, r => do
    let (vs, r) ← meanings M cells items r
    return (vs.getLastD M.unit, r)
  | .jumpValue, r => some (M.perform .jumpValue r)

/-- The values of several expressions, from the left. -/
def Expr.meanings (M : Machine V W) (cells : CellTable) :
    List Expr → Run V W → Option (List V × Run V W)
  | [], r => some ([], r)
  | e :: es, r => do
    let (v, r) ← e.meaning M cells r
    let (vs, r) ← meanings M cells es r
    return (v :: vs, r)

end

end Script

/-! ## Access to cells -/

namespace Cell

open Arena

variable {M : Machine V W}

theorem eval_load (c : Cell) {a b : Arena} (hb : (c.load a).2.GrowsTo b) (s : Session V W) :
    b.eval M (c.load a).1 s =
      some ((M.load c s.run).1, { s with run := (M.load c s.run).2 }) := by
  have hslot : ∀ {b : Arena}, (a.add (.cell c)).2.GrowsTo b →
      b.eval M a.size s = some (s.act M (.cell c) []) := fun hb =>
    eval_node hb.get?_size rfl (by simp [Node.operands]) (evalEach_nil s)
  unfold load slot boxReader helperSuffix at hb ⊢
  unfold Machine.load
  cases hbox : c.isBoxed <;> cases href : c.refCounted <;>
    simp only [hbox, href, Bool.false_eq_true, if_false, if_true, add_fst, size_add] at hb ⊢
  · exact hslot hb
  · have hretain := hb.get?_size
    rw [size_add] at hretain
    exact eval_unary hretain rfl rfl (Nat.lt_succ_self _) (hslot ((growsTo_add _ _).trans hb))
  · have hread := hb.get?_size
    rw [size_add] at hread
    exact eval_unary hread rfl rfl (Nat.lt_succ_self _) (hslot ((growsTo_add _ _).trans hb))
  · have hread := ((growsTo_add _ _).trans hb).get?_size
    have hretain := hb.get?_size
    rw [size_add] at hread
    rw [size_add, size_add] at hretain
    refine eval_unary hretain rfl rfl (Nat.lt_succ_self _) (eval_unary hread rfl rfl
      (Nat.lt_succ_self _) (hslot ((growsTo_add _ _).trans ((growsTo_add _ _).trans hb))))

end Cell

namespace Script

open Arena

variable {M : Machine V W} {cells : CellTable}

theorem Expr.meanings_cons_eq_some {e : Expr} {es : List Expr} {r r₁ r₂ : Run V W} {v : V}
    {vs : List V} (he : e.meaning M cells r = some (v, r₁))
    (hes : Expr.meanings M cells es r₁ = some (vs, r₂)) :
    Expr.meanings M cells (e :: es) r = some (v :: vs, r₂) := by
  simp [meanings, he, hes]

theorem Expr.meaning_of_leaf (cells : CellTable) {e : Expr} {n : Node} (h : e.leaf? = some n)
    (r : Run V W) :
    e.meaning M cells r = some (M.act n [] r) ∧ n.operands = [] ∧ n.isShared = false := by
  cases e with
  | num value | bool value | pointer label info | jumpValue =>
      obtain rfl := Option.some.inj h
      exact ⟨by simp only [meaning, Machine.act], rfl, rfl⟩
  | _ => simp [leaf?] at h

private theorem ignores_mono {s : Session V W} {lo lo' hi hi' : Nat} (h : s.Ignores lo hi)
    (hlo : lo ≤ lo') (hhi : hi' ≤ hi) : s.Ignores lo' hi' := fun x hx hx' =>
  h x (Nat.le_trans hlo hx) (Nat.lt_of_lt_of_le hx' hhi)

private theorem eval_operation {a b c : Arena} {n : Node} (hn : n.isShared = false)
    (hab : AppendsAll a n.operands b) (hc : (b.add n).2.GrowsTo c) {s t : Session V W}
    {r : Run V W} {vs : List V} (hvs : c.evalEach M n.operands s = some (vs, t))
    (ht : Session.SameOutside { s with run := r } a.size b.size t) :
    ∃ t', c.eval M b.size s = some ((M.act n vs r).1, t') ∧
      Session.SameOutside { s with run := (M.act n vs r).2 } a.size (b.add n).2.size t' := by
  obtain rfl : t.run = r := ht.run_eq
  refine ⟨_, eval_node hc.get?_size hn (fun x hx => (hab.mem_range x hx).2) hvs, rfl, ?_⟩
  intro x hx
  rw [size_add] at hx
  exact ht.known_eq x (by omega)

/-- The evaluation of the nodes made between two arenas means the same as the direct meaning: in
every later arena, in every session that knows nothing of those nodes yet. -/
private theorem meaningCases : LoweringCases cells
    (fun e a x b => ∀ {c : Arena} {s : Session V W}, b.GrowsTo c → s.Ignores a.size b.size →
      ∃ v r t, e.meaning M cells s.run = some (v, r) ∧ c.eval M x s = some (v, t) ∧
        Session.SameOutside { s with run := r } a.size b.size t)
    (fun es a xs b => ∀ {c : Arena} {s : Session V W}, b.GrowsTo c → s.Ignores a.size b.size →
      ∃ vs r t, Expr.meanings M cells es s.run = some (vs, r) ∧
        c.evalEach M xs s = some (vs, t) ∧
        Session.SameOutside { s with run := r } a.size b.size t) where
  leaf {e n a} h := fun {c s} hc _ => by
    obtain ⟨hmeaning, hops, hshared⟩ := Expr.meaning_of_leaf (M := M) cells h s.run
    have heval := eval_node (M := M) (s := s) hc.get?_size hshared (by simp [hops])
      (by rw [hops]; exact evalEach_nil s)
    exact ⟨_, _, _, hmeaning, heval, rfl, fun _ _ => rfl⟩
  load {name d a} hd := fun {c s} hc _ =>
    ⟨_, _, _, by simp [Expr.meaning, hd], d.eval_load hc s, rfl, fun _ _ => rfl⟩
  call {name mask isAsync args a b ids} hargs ih := fun {c s} hc hs => by
    have hcall := (appends_borrowCall b name mask isAsync ids).growsTo
    have hab := appends_lowerExprs hargs
    obtain ⟨vs, r, t, hmeaning, heval, hsame⟩ :=
      ih (GrowsTo.refl b) (ignores_mono hs (Nat.le_refl _) hcall.size_le)
    obtain rfl : t.run = r := hsame.run_eq
    obtain ⟨t', heval', hsame'⟩ := eval_borrowCall (fun x hx => (hab.mem_range x hx).2) hc heval
      (ignores_mono hs hab.growsTo.size_le (Nat.le_refl _))
    have hdirect : (Expr.call name mask isAsync args).meaning M cells s.run =
        some (M.borrowingCall name mask isAsync vs t.run) := by
      simp [Expr.meaning, hmeaning]
    refine ⟨_, _, t', hdirect, heval', hsame'.run_eq, fun x hx => ?_⟩
    have hgrow := hab.growsTo.size_le
    have hgrow' := hcall.size_le
    exact (hsame'.known_eq x (by omega)).trans (hsame.known_eq x (by omega))
  procCall {callee isAsync args a b ids} hargs ih := fun {c s} hc hs => by
    obtain ⟨vs, r, t, hmeaning, heval, hsame⟩ := ih ((growsTo_add _ _).trans hc)
      (ignores_mono hs (Nat.le_refl _) (growsTo_add _ _).size_le)
    obtain ⟨t', heval', hsame'⟩ := eval_operation rfl (appends_lowerExprs hargs) hc heval hsame
    have hdirect : (Expr.procCall callee isAsync args).meaning M cells s.run =
        some (M.perform (.procCall callee isAsync vs) r) := by
      simp [Expr.meaning, hmeaning]
    exact ⟨_, _, t', hdirect, heval', hsame'⟩
  field {e index a b x} he ih := fun {c s} hc hs => by
    have hab := appends_lowerExpr he
    obtain ⟨v, r, t, hmeaning, heval, hsame⟩ := ih ((growsTo_add _ _).trans hc)
      (ignores_mono hs (Nat.le_refl _) (growsTo_add _ _).size_le)
    obtain ⟨t', heval', hsame'⟩ := eval_operation (n := .field x index) rfl
      ⟨hab.growsTo, by simpa [Node.operands] using ⟨hab.size_le, hab.lt_size⟩⟩ hc
      (evalEach_cons_eq_some.mpr ⟨v, t, [], heval, evalEach_nil t, rfl⟩) hsame
    have hdirect : (Expr.field e index).meaning M cells s.run = some (M.field v index, r) := by
      simp [Expr.meaning, hmeaning]
    exact ⟨_, _, t', hdirect, heval', hsame'⟩
  sequence {items a b ids} hitems ih := fun {c s} hc hs => by
    obtain ⟨vs, r, t, hmeaning, heval, hsame⟩ := ih ((growsTo_add _ _).trans hc)
      (ignores_mono hs (Nat.le_refl _) (growsTo_add _ _).size_le)
    obtain ⟨t', heval', hsame'⟩ := eval_operation rfl (appends_lowerExprs hitems) hc heval hsame
    have hdirect : (Expr.sequence items).meaning M cells s.run =
        some (vs.getLastD M.unit, r) := by
      simp [Expr.meaning, hmeaning]
    exact ⟨_, _, t', hdirect, heval', hsame'⟩
  nil {a} := fun {c s} _ _ => ⟨[], s.run, s, rfl, rfl, rfl, fun _ _ => rfl⟩
  cons {e es a b c x xs} he hes ihe ihes := fun {d s} hd hs => by
    have hab := (appends_lowerExpr he).growsTo
    have hbc := (appends_lowerExprs hes).growsTo
    obtain ⟨v, r, t, hmeaning, heval, hsame⟩ := ihe (hbc.trans hd)
      (ignores_mono hs (Nat.le_refl _) hbc.size_le)
    obtain rfl : t.run = r := hsame.run_eq
    -- The first expression teaches nothing of the nodes made for the others.
    have ht : t.Ignores b.size c.size := fun y hlo hhi =>
      (hsame.known_eq y (Or.inr hlo)).trans (hs y (Nat.le_trans hab.size_le hlo) hhi)
    obtain ⟨vs, r', t', hmeaning', heval', hsame'⟩ := ihes hd ht
    refine ⟨_, r', t', Expr.meanings_cons_eq_some hmeaning hmeaning',
      evalEach_cons_eq_some.mpr ⟨v, t, vs, heval, heval', rfl⟩, hsame'.run_eq, fun y hy => ?_⟩
    have hsize := hab.size_le
    have hsize' := hbc.size_le
    exact (hsame'.known_eq y (by omega)).trans (hsame.known_eq y (by omega))

/-- Lowering keeps the meaning of an expression. In every arena that has grown from the one it
leads to, the node of the expression evaluates to the value of the direct meaning with its effects
in its order, and nothing is learned of other nodes than those made for the expression. The session
may know anything of other nodes. -/
theorem eval_lowerExpr {cells : CellTable} {e : Expr} {a b c : Arena} {x : ExprId}
    (M : Machine V W) {s : Session V W} (h : lowerExpr cells e a = .ok (x, b)) (hc : b.GrowsTo c)
    (hs : s.Ignores a.size b.size) :
    ∃ v r t, e.meaning M cells s.run = some (v, r) ∧ c.eval M x s = some (v, t) ∧ t.run = r ∧
      ∀ y : Nat, y < a.size ∨ b.size ≤ y → t.known y = s.known y := by
  obtain ⟨v, r, t, hmeaning, heval, hsame⟩ := meaningCases.of_lowerExpr h hc hs
  exact ⟨v, r, t, hmeaning, heval, hsame.run_eq, hsame.known_eq⟩

/-- A machine that answers each effect with the number of effects before it. -/
def numbering : Machine Nat Nat where
  unit := 0
  literal _ := 0
  pointer _ _ := 0
  field v _ := v
  answer _ n := (n, n + 1)

/-- A borrowed load in a borrowed call: each call is made once and each release follows its call. -/
theorem eval_lowerExpr_nested :
    ∃ x b t, lowerExpr ((∅ : CellTable).insert "s" (countedLocal "s"))
        (.call "g" 1 false [.call "f" 1 false [.load "s"]]) {} = .ok (x, b) ∧
      b.eval numbering x ⟨⟨0, []⟩, fun _ => none⟩ = some (4, t) ∧
      t.run.trace = [.slot (countedLocal "s"), .retain 0, .call "f" false [0], .release 0,
        .call "g" false [2], .release 2] := by
  have hload : lowerExpr ((∅ : CellTable).insert "s" (countedLocal "s")) (.load "s") {} =
      .ok ((countedLocal "s").load {}) :=
    lowerExpr_load_insert ..
  have hinner : lowerExpr ((∅ : CellTable).insert "s" (countedLocal "s"))
      (.call "f" 1 false [.load "s"]) {} = .ok (6, ⟨#[.cell (countedLocal "s"), .retain 0,
        .shared 1, .release 2, .runtimeCall "f" false [2], .shared 4, .sequence [5, 3, 5]]⟩) := by
    rw [lowerExpr, lowerExprs, lowerExprs]
    exact bind_eq_ok.mpr ⟨[1], _, bind_eq_ok.mpr ⟨1, _, hload, rfl⟩, rfl⟩
  have h : lowerExpr ((∅ : CellTable).insert "s" (countedLocal "s"))
      (.call "g" 1 false [.call "f" 1 false [.load "s"]]) {} = .ok (11, ⟨#[.cell (countedLocal "s"),
        .retain 0, .shared 1, .release 2, .runtimeCall "f" false [2], .shared 4,
        .sequence [5, 3, 5], .shared 6, .release 7, .runtimeCall "g" false [7], .shared 9,
        .sequence [10, 8, 10]]⟩) := by
    rw [lowerExpr, lowerExprs, lowerExprs]
    exact bind_eq_ok.mpr ⟨[6], _, bind_eq_ok.mpr ⟨6, _, hinner, rfl⟩, rfl⟩
  obtain ⟨v, r, t, hmeaning, heval, rfl, -⟩ := eval_lowerExpr numbering
    (s := ⟨⟨0, []⟩, fun _ => none⟩) h (GrowsTo.refl _) fun _ _ _ => rfl
  simp only [Expr.meaning, Expr.meanings, Std.HashMap.getElem?_insert_self, Option.map_some,
    Option.bind_eq_bind, Option.bind_some] at hmeaning
  obtain ⟨rfl, hrun⟩ := Prod.mk.injEq .. |>.mp (Option.some.inj hmeaning)
  refine ⟨_, _, t, h, heval, ?_⟩
  rw [← hrun]
  rfl

end Script

end StackIR
