import StackIR.Dump
import StackIR.Proofs.Visits

/-!
# Outlines and walks

Outlining a body and walking it are two recursions with sets of their own, of the shared nodes shown
and entered. They make the same choice at every node: what a walk meets are the nodes of the
outlines, statement by statement (`Procedure.walk_eq_outlines`). A walk that succeeds thus tells
that there are outlines, and a dump.

`Arena.OutlineCases` takes an outline apart as `WalkCases` does a walk.
-/

namespace StackIR

namespace Outline

mutual

/-- The nodes an outline shows or refers to, a node before its operands. -/
def nodes : Outline → List ExprId
  | .again e => [e]
  | .full e _ operands => e :: nodesOf operands

def nodesOf : List Outline → List ExprId
  | [] => []
  | o :: os => o.nodes ++ nodesOf os

end

end Outline

/-- The trail behind some nodes that have been met, with the shared nodes entered by then. -/
def Trail.past (t : Trail) (xs : List ExprId) (entered : Shown) : Trail :=
  { entered, visits := t.visits ++ (xs.map Visit.expr).toArray }

theorem Trail.past_past (t : Trail) (xs ys : List ExprId) (entered entered' : Shown) :
    (t.past xs entered).past ys entered' = t.past (xs ++ ys) entered' := by
  simp [past]

theorem mapM_cons_apply {α β σ : Type} (f : α → StateT σ Option β) (x : α) (xs : List α) (s : σ) :
    (x :: xs).mapM f s =
      (f x s).bind fun r => (xs.mapM f r.2).map fun rs => (r.1 :: rs.1, rs.2) := by
  rw [List.mapM_cons]
  show (f x s).bind (fun r => (xs.mapM f r.2).bind fun rs => some (r.1 :: rs.1, rs.2)) = _
  simp only [Option.map_eq_bind, Function.comp_def]

theorem mapM_concat_apply {α β σ : Type} (f : α → StateT σ Option β) (xs : List α) (x : α) (s : σ) :
    (xs ++ [x]).mapM f s =
      (xs.mapM f s).bind fun rs => (f x rs.2).map fun r => (rs.1 ++ [r.1], r.2) := by
  induction xs generalizing s with
  | nil =>
      rw [List.nil_append, mapM_cons_apply]
      show (f x s).bind (fun r => some ([r.1], r.2)) = (f x s).map fun r => ([] ++ [r.1], r.2)
      rw [Option.map_eq_bind]
      rfl
  | cons y ys ih =>
      rw [List.cons_append, mapM_cons_apply, mapM_cons_apply]
      cases f y s with
      | none => rfl
      | some r =>
          simp only [Option.bind_some, ih]
          cases ys.mapM f r.2 with
          | none => rfl
          | some rs =>
              simp only [Option.bind_some, Option.map_some]
              cases f x rs.2 <;> rfl

namespace Arena

variable {a : Arena}

/-- The nodes shown when the operands of a node are outlined. -/
def showing (n : Node) (e : ExprId) (shown : Shown) : Shown :=
  if n.isShared then shown.insert e else shown

/-- The operands as a node outlines them: they have to stand before it. -/
def outlineOperands (a : Arena) (e : ExprId) (xs : List ExprId) :
    StateT Shown Option (List Outline) :=
  xs.mapM fun x => if x < e then a.outline x else failure

theorem outline_eq (a : Arena) (e : ExprId) (shown : Shown) :
    a.outline e shown = (a.get? e).bind fun n =>
      if n.isShared && shown.contains e then some (.again e, shown)
      else (a.outlineOperands e n.operands (showing n e shown)).map fun r =>
        (.full e n r.1, r.2) := by
  have hrun : ∀ (m : StateT Shown Option (List Outline)) (n : Node) (s : Shown),
      (m >>= fun operands => pure (Outline.full e n operands)) s =
        (m s).map fun r => (.full e n r.1, r.2) := fun m n s => by
    show (m s).bind (fun r => some (Outline.full e n r.1, r.2)) = _
    rw [Option.map_eq_bind]
    rfl
  rw [outline]
  cases a.get? e with
  | none => rfl
  | some n =>
      rw [Option.bind_some]
      unfold showing
      dsimp only
      cases n.isShared with
      | false => exact hrun (a.outlineOperands e n.operands) n shown
      | true =>
          cases hcontains : Std.HashSet.contains shown e with
          | true =>
              refine (congrFun (if_pos ?_) shown).trans rfl
              exact hcontains
          | false =>
              refine (congrFun (if_neg ?_) shown).trans
                (hrun (a.outlineOperands e n.operands) n (shown.insert e))
              simpa using hcontains

theorem outlineOperands_nil (e : ExprId) (shown : Shown) :
    a.outlineOperands e [] shown = some ([], shown) := rfl

theorem outlineOperands_cons {e x : ExprId} (hx : x < e) (xs : List ExprId) (shown : Shown) :
    a.outlineOperands e (x :: xs) shown = (a.outline x shown).bind fun r =>
      (a.outlineOperands e xs r.2).map fun rs => (r.1 :: rs.1, rs.2) := by
  rw [outlineOperands, mapM_cons_apply, if_pos hx]
  rfl

theorem outlineOperands_cons_of_not_lt {e x : ExprId} (hx : ¬ x < e) (xs : List ExprId)
    (shown : Shown) : a.outlineOperands e (x :: xs) shown = none := by
  rw [outlineOperands, mapM_cons_apply, if_neg hx]
  rfl

/-- What is met of operands is what their outlines show, if it is so of each operand. -/
theorem guardedWalk_eq_outlineOperands {e : ExprId}
    (h : ∀ x, x < e → ∀ t : Trail,
      a.walk x t = (a.outline x t.entered).map fun r => t.past r.1.nodes r.2) :
    ∀ (xs : List ExprId) (t : Trail),
      xs.foldlM (fun t x => if x < e then a.walk x t else none) t =
        (a.outlineOperands e xs t.entered).map fun r => t.past (Outline.nodesOf r.1) r.2
  | [], t => by simp [outlineOperands_nil, Trail.past, Outline.nodesOf]
  | x :: xs, t => by
      rw [List.foldlM_cons]
      by_cases hx : x < e
      · rw [if_pos hx, outlineOperands_cons hx, h x hx]
        cases a.outline x t.entered with
        | none => rfl
        | some r =>
            refine (guardedWalk_eq_outlineOperands h xs (t.past r.1.nodes r.2)).trans ?_
            rw [Option.bind_some, Option.map_map]
            exact congrArg (Option.map · _) (funext fun rs => t.past_past _ _ _ _)
      · rw [if_neg hx, outlineOperands_cons_of_not_lt hx]
        rfl

/-- A walk meets what the outline shows and enters what it shows in full. -/
theorem walk_eq_outline (e : ExprId) (t : Trail) :
    a.walk e t = (a.outline e t.entered).map fun r => t.past r.1.nodes r.2 := by
  induction e using Nat.strong_induction_on generalizing t with
  | _ e ih =>
      rw [walk, outline_eq]
      cases a.get? e with
      | none => rfl
      | some n =>
          have hentered : (t.meets (.expr e)).entered = t.entered := rfl
          simp only [Option.bind_some, hentered]
          split
          next =>
              simp [Trail.past, Trail.meets, Outline.nodes]
          next =>
              rw [guardedWalk_eq_outlineOperands ih, Option.map_map]
              have hshowing : (if n.isShared then (t.meets (.expr e)).enters e
                  else t.meets (.expr e)) = (t.past [e] (showing n e t.entered)) := by
                unfold showing
                cases n.isShared <;> simp [Trail.past, Trail.meets, Trail.enters]
              rw [hshowing]
              exact congrArg (Option.map · _) (funext fun rs => t.past_past _ _ _ _)

theorem OperandsPrecede.exists_outline (h : a.OperandsPrecede) {e : ExprId} (he : e < a.size)
    (shown : Shown) : ∃ o shown', a.outline e shown = some (o, shown') := by
  obtain ⟨t, ht⟩ := h.exists_walk he { entered := shown }
  rw [walk_eq_outline] at ht
  obtain ⟨⟨o, shown'⟩, ho, -⟩ := Option.map_eq_some_iff.mp ht
  exact ⟨o, shown', ho⟩

/-! ### The induction over an outline that succeeds -/

/-- What to show of each way to outline a node: `P` of the node, the nodes shown before, its outline
and the nodes shown after, and `Q` likewise of several nodes. -/
structure OutlineCases (a : Arena) (P : ExprId → Shown → Outline → Shown → Prop)
    (Q : List ExprId → Shown → List Outline → Shown → Prop) : Prop where
  again : ∀ {e : ExprId} {n : Node} {shown : Shown}, a.get? e = some n → n.isShared = true →
    shown.contains e = true → P e shown (.again e) shown
  full : ∀ {e : ExprId} {n : Node} {shown shown' : Shown} {os : List Outline},
    a.get? e = some n → (n.isShared = true → shown.contains e = false) →
    (∀ x ∈ n.operands, x < e) →
    a.outlineOperands e n.operands (showing n e shown) = some (os, shown') →
    Q n.operands (showing n e shown) os shown' → P e shown (.full e n os) shown'
  nil : ∀ {shown : Shown}, Q [] shown [] shown
  cons : ∀ {x : ExprId} {xs : List ExprId} {shown s shown' : Shown} {o : Outline}
    {os : List Outline}, a.outline x shown = some (o, s) → P x shown o s → Q xs s os shown' →
    Q (x :: xs) shown (o :: os) shown'

namespace OutlineCases

variable {P : ExprId → Shown → Outline → Shown → Prop}
  {Q : List ExprId → Shown → List Outline → Shown → Prop}

private theorem operands_of_outlines (hP : OutlineCases a P Q) {e : ExprId}
    (h : ∀ x, x < e → ∀ {shown shown' : Shown} {o : Outline},
      a.outline x shown = some (o, shown') → P x shown o shown') :
    ∀ {xs : List ExprId} {shown shown' : Shown} {os : List Outline},
      a.outlineOperands e xs shown = some (os, shown') →
        (∀ x ∈ xs, x < e) ∧ Q xs shown os shown'
  | [], _, _, _, hos => by
      rw [outlineOperands_nil] at hos
      obtain ⟨rfl, rfl⟩ := Prod.mk.injEq .. |>.mp (Option.some.inj hos)
      exact ⟨by simp, hP.nil⟩
  | x :: xs, _, _, _, hos => by
      by_cases hx : x < e
      · rw [outlineOperands_cons hx] at hos
        obtain ⟨⟨o, s⟩, ho, hos⟩ := Option.bind_eq_some_iff.mp hos
        obtain ⟨⟨os, s'⟩, hrest, heq⟩ := Option.map_eq_some_iff.mp hos
        obtain ⟨rfl, rfl⟩ := Prod.mk.injEq .. |>.mp heq
        obtain ⟨hlt, hQ⟩ := operands_of_outlines hP h hrest
        exact ⟨by simpa [hx] using hlt, hP.cons ho (h x hx ho) hQ⟩
      · rw [outlineOperands_cons_of_not_lt hx] at hos
        cases hos

/-- What holds of each way to outline a node holds of every outline that succeeds. -/
theorem of_outline (hP : OutlineCases a P Q) {e : ExprId} :
    ∀ {shown shown' : Shown} {o : Outline},
      a.outline e shown = some (o, shown') → P e shown o shown' := by
  induction e using Nat.strong_induction_on with
  | _ e ih =>
      intro shown shown' o h
      rw [outline_eq] at h
      obtain ⟨n, hn, h⟩ := Option.bind_eq_some_iff.mp h
      by_cases hagain : (n.isShared && shown.contains e) = true
      · rw [if_pos hagain] at h
        obtain ⟨hshared, hcontains⟩ := Bool.and_eq_true_iff.mp hagain
        obtain ⟨rfl, rfl⟩ := Prod.mk.injEq .. |>.mp (Option.some.inj h)
        exact hP.again hn hshared hcontains
      · rw [if_neg hagain] at h
        obtain ⟨⟨os, s⟩, hos, heq⟩ := Option.map_eq_some_iff.mp h
        obtain ⟨rfl, rfl⟩ := Prod.mk.injEq .. |>.mp heq
        obtain ⟨hlt, hQ⟩ := operands_of_outlines hP (fun x hx => ih x hx) hos
        refine hP.full hn (fun hshared => ?_) hlt hos hQ
        simpa [hshared] using hagain

theorem of_outlineOperands (hP : OutlineCases a P Q) {e : ExprId} {xs : List ExprId}
    {shown shown' : Shown} {os : List Outline}
    (h : a.outlineOperands e xs shown = some (os, shown')) : Q xs shown os shown' :=
  (operands_of_outlines hP (fun _ _ => hP.of_outline) h).2

end OutlineCases

theorem head?_nodes_outline {e : ExprId} {shown shown' : Shown} {o : Outline}
    (h : a.outline e shown = some (o, shown')) : o.nodes.head? = some e := by
  have hcases : OutlineCases a (fun e _ o _ => o.nodes.head? = some e) fun _ _ _ _ => True :=
    ⟨fun _ _ _ => rfl, fun _ _ _ _ _ => rfl, trivial, fun _ _ _ => trivial⟩
  exact hcases.of_outline h

end Arena

/-! ## Bodies -/

/-- The nodes that the outline of a statement refers to, if it has one. -/
def stmtNodes (o? : Option Outline) : List ExprId :=
  o?.elim [] Outline.nodes

/-- What a walk meets of statements with these outlines, the first at position `i`. -/
def visitsFrom (i : Nat) : List (Option Outline) → List Visit
  | [] => []
  | o? :: os => .stmt i :: ((stmtNodes o?).map .expr ++ visitsFrom (i + 1) os)

theorem count_visitsFrom (v : ExprId) (i : Nat) (trees : List (Option Outline)) :
    (visitsFrom i trees).count (.expr v) = (trees.flatMap stmtNodes).count v := by
  induction trees generalizing i with
  | nil => rfl
  | cons o? os ih =>
      rw [visitsFrom, List.flatMap_cons, List.count_append, List.count_cons, List.count_append, ih]
      have hmap : ((stmtNodes o?).map Visit.expr).count (.expr v) = (stmtNodes o?).count v :=
        List.count_map_of_injective _ _ (fun _ _ => Visit.expr.inj) v
      rw [hmap]
      simp

namespace Arena

variable {a : Arena} {s : Stmt}

theorem outlineStmt_of_none (hs : s.expr? = none) (shown : Shown) :
    a.outlineStmt s shown = some (none, shown) := by
  unfold outlineStmt
  rw [hs]
  rfl

theorem outlineStmt_of_some {e : ExprId} (hs : s.expr? = some e) (shown : Shown) :
    a.outlineStmt s shown = (a.outline e shown).map fun r => (some r.1, r.2) := by
  unfold outlineStmt
  rw [hs]
  show (a.outline e shown).bind (fun r => some (some r.1, r.2)) = _
  rw [Option.map_eq_bind]
  rfl

/-- What outlining a statement without an expression gives. -/
theorem of_outlineStmt_none {shown shown' : Shown} {o? : Option Outline} (hs : s.expr? = none)
    (h : a.outlineStmt s shown = some (o?, shown')) : o? = none ∧ shown' = shown := by
  rw [outlineStmt_of_none hs] at h
  obtain ⟨rfl, rfl⟩ := Prod.mk.injEq .. |>.mp (Option.some.inj h)
  exact ⟨rfl, rfl⟩

/-- What outlining a statement with an expression gives. -/
theorem of_outlineStmt_some {e : ExprId} {shown shown' : Shown} {o? : Option Outline}
    (hs : s.expr? = some e) (h : a.outlineStmt s shown = some (o?, shown')) :
    ∃ o, o? = some o ∧ a.outline e shown = some (o, shown') := by
  rw [outlineStmt_of_some hs] at h
  obtain ⟨⟨o, shown₁⟩, ho, heq⟩ := Option.map_eq_some_iff.mp h
  obtain ⟨rfl, rfl⟩ := Prod.mk.injEq .. |>.mp heq
  exact ⟨o, rfl, ho⟩

theorem outlineStmts_cons_eq_some {ss : List Stmt} {shown shown' : Shown}
    {trees : List (Option Outline)} (h : (s :: ss).mapM a.outlineStmt shown = some (trees, shown')) :
    ∃ o? shown₁ os, a.outlineStmt s shown = some (o?, shown₁) ∧
      ss.mapM a.outlineStmt shown₁ = some (os, shown') ∧ trees = o? :: os := by
  rw [mapM_cons_apply] at h
  obtain ⟨⟨o?, shown₁⟩, hs, h⟩ := Option.bind_eq_some_iff.mp h
  obtain ⟨⟨os, shown₂⟩, hss, heq⟩ := Option.map_eq_some_iff.mp h
  obtain ⟨rfl, rfl⟩ := Prod.mk.injEq .. |>.mp heq
  exact ⟨o?, shown₁, os, hs, hss, rfl⟩

/-- Each statement is outlined in its turn. -/
theorem exists_getElem?_outlineStmts {ss : List Stmt} {shown shown' : Shown}
    {trees : List (Option Outline)} (h : ss.mapM a.outlineStmt shown = some (trees, shown'))
    {k : Nat} (hk : ss[k]? = some s) :
    ∃ o? before after, trees[k]? = some o? ∧ a.outlineStmt s before = some (o?, after) := by
  induction ss generalizing shown trees k with
  | nil => cases hk
  | cons t ss ih =>
      obtain ⟨o?, shown₁, os, ht, hss, rfl⟩ := outlineStmts_cons_eq_some h
      cases k with
      | zero =>
          obtain rfl := Option.some.inj hk
          exact ⟨o?, shown, shown₁, rfl, ht⟩
      | succ k => exact ih hss hk

/-- A statement without an expression has no outline. -/
theorem getElem?_outlineStmts_of_none {ss : List Stmt} {shown shown' : Shown}
    {trees : List (Option Outline)} (h : ss.mapM a.outlineStmt shown = some (trees, shown'))
    {k : Nat} (hk : ss[k]? = some s) (hs : s.expr? = none) : trees[k]? = some none := by
  obtain ⟨o?, before, after, htree, ho⟩ := exists_getElem?_outlineStmts h hk
  rw [htree, (of_outlineStmt_none hs ho).1]

end Arena

namespace Procedure

variable {p : Procedure}

theorem walkStmt_eq_outlineStmt (t : Trail) (s : Stmt) (i : Nat) :
    p.walkStmt t (s, i) = (p.arena.outlineStmt s t.entered).map fun r =>
      (t.meets (.stmt i)).past (stmtNodes r.1) r.2 := by
  unfold walkStmt
  cases hroot : s.expr? with
  | none =>
      rw [Arena.outlineStmt_of_none hroot]
      simp [Trail.past, Trail.meets, stmtNodes]
  | some e =>
      rw [Arena.outlineStmt_of_some hroot, Option.map_map]
      exact Arena.walk_eq_outline e (t.meets (.stmt i))

theorem walkStmts_eq_outlines : ∀ (ss : List Stmt) (i : Nat) (t : Trail),
    ((ss.zipIdx i).foldlM p.walkStmt t).map (fun t' => t'.visits) =
      (ss.mapM p.arena.outlineStmt t.entered).map fun r =>
        t.visits ++ (visitsFrom i r.1).toArray
  | [], i, t => by
      show some t.visits = some (t.visits ++ #[])
      rw [Array.append_empty]
  | s :: ss, i, t => by
      rw [List.zipIdx_cons, List.foldlM_cons, mapM_cons_apply, walkStmt_eq_outlineStmt]
      cases p.arena.outlineStmt s t.entered with
      | none => rfl
      | some r =>
          refine (walkStmts_eq_outlines ss (i + 1) _).trans ?_
          rw [Option.bind_some, Option.map_map]
          refine congrArg (Option.map · _) (funext fun rs => ?_)
          simp [visitsFrom, Trail.past, Trail.meets]

/-- What the walk of a body meets are the nodes of its outlines, statement by statement. -/
theorem walk_eq_outlines (p : Procedure) :
    p.walk = p.outlines.map fun trees => (visitsFrom 0 trees).toArray := by
  have h := walkStmts_eq_outlines (p := p) p.body.toList 0 {}
  refine Eq.trans ?_ (h.trans ?_)
  · unfold walk
    cases p.body.toList.zipIdx.foldlM p.walkStmt {} <;> rfl
  · have hempty : ({} : Trail).entered = ∅ := rfl
    unfold outlines StateT.run'
    rw [hempty]
    cases p.body.toList.mapM p.arena.outlineStmt ∅ with
    | none => rfl
    | some r => simp

theorem outlines_eq_some {trees : List (Option Outline)} {shown : Shown}
    (h : p.body.toList.mapM p.arena.outlineStmt ∅ = some (trees, shown)) :
    p.outlines = some trees := by
  unfold outlines StateT.run'
  rw [h]
  rfl

/-- Where every walk succeeds, there are outlines. -/
theorem Walkable.exists_outlines (hp : p.Walkable) : ∃ trees, p.outlines = some trees := by
  obtain ⟨t, hwalk, -⟩ := hp.exists_visits
  rw [p.walk_eq_outlines] at hwalk
  obtain ⟨trees, htrees, -⟩ := Option.map_eq_some_iff.mp hwalk
  exact ⟨trees, htrees⟩

/-- The nodes of the outlines are met as often as they are visited. -/
theorem Walkable.isVisits_of_outlines (hp : p.Walkable) {trees : List (Option Outline)}
    (h : p.outlines = some trees) : p.IsVisits fun e => (visitsFrom 0 trees).count (.expr e) := by
  obtain ⟨t, hwalk, hvisits⟩ := hp.exists_visits
  rw [p.walk_eq_outlines, h, Option.map_some] at hwalk
  have hmet : t.met = fun e => (visitsFrom 0 trees).count (.expr e) := by
    funext e
    rw [Trail.met, ← Option.some.inj hwalk]
  rwa [← hmet]

theorem Walkable.exists_dumpWith (hp : p.Walkable) (link? : Option Linkage) :
    ∃ text, p.dumpWith link? = some text := by
  obtain ⟨trees, htrees⟩ := hp.exists_outlines
  exact ⟨_, by rw [dumpWith, htrees, Option.map_some]⟩

end Procedure

end StackIR
