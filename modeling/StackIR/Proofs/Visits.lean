import Mathlib.Algebra.BigOperators.Group.Finset.Basic
import Mathlib.Algebra.BigOperators.Ring.Finset
import StackIR.Proofs.Built
import StackIR.Proofs.Linking
import StackIR.Proofs.Walking

/-!
# How often expressions are visited

The uses of a shared expression are counted by walking the body, and where a shared node is entered
depends on the order of the walk. How often each node is met does not: it is the one solution of
equations that speak of no order (`Procedure.IsVisits`).

The walk keeps the equations balanced (`Trail.Adds`): it adds one meeting of an expression and, for
each node it enters, one meeting of each operand. A shared node is entered exactly when it has been
met (`Trail.EntersMet`).
-/

namespace StackIR

open Finset

namespace Arena

/-- How many times a node has another one as operand. -/
def operandCount (a : Arena) (u v : ExprId) : Nat :=
  ((a.get? u).elim [] Node.operands).count v

/-- How many times the operands of a node are entered if nodes are met as often as given: a shared
node hands on only the first time. -/
def entries (a : Arena) (met : ExprId → Nat) (u : ExprId) : Nat :=
  if a.isShared u then (if 0 < met u then 1 else 0) else met u

/-- How many times a node is met as an operand if nodes are met as often as given. -/
def inflow (a : Arena) (met : ExprId → Nat) (v : ExprId) : Nat :=
  ∑ u ∈ range a.size, a.entries met u * a.operandCount u v

theorem operandCount_eq {a : Arena} {e : ExprId} {n : Node} (h : a.get? e = some n) (v : ExprId) :
    a.operandCount e v = n.operands.count v := by
  simp [operandCount, h]

theorem OperandsPrecede.lt_of_operandCount {a : Arena} (h : a.OperandsPrecede) {u v : ExprId}
    (huv : a.operandCount u v ≠ 0) : v < u := by
  cases hu : a.get? u with
  | none => simp [operandCount, hu] at huv
  | some n =>
      rw [operandCount_eq hu] at huv
      exact h u n hu v (List.count_pos_iff.mp (Nat.pos_of_ne_zero huv))

theorem inflow_of_entries {a : Arena} {met met' : ExprId → Nat} {e : ExprId} (he : e < a.size)
    (hentries : ∀ u, a.entries met' u = a.entries met u + if e = u then 1 else 0) (v : ExprId) :
    a.inflow met' v = a.inflow met v + a.operandCount e v := by
  have hone : ∑ u ∈ range a.size, (if e = u then 1 else 0) * a.operandCount u v =
      a.operandCount e v := by
    rw [Finset.sum_eq_single_of_mem e (mem_range.mpr he)]
    · simp
    · intro u _ hu
      simp [Ne.symm hu]
  unfold inflow
  rw [← hone, ← Finset.sum_add_distrib]
  refine Finset.sum_congr rfl fun u _ => ?_
  rw [hentries u, Nat.add_mul]

end Arena

/-! ## Walks -/

namespace Trail

def met (t : Trail) (e : ExprId) : Nat :=
  t.visits.toList.count (.expr e)

@[simp] theorem met_meets_stmt (t : Trail) (i : Nat) (v : ExprId) :
    (t.meets (.stmt i)).met v = t.met v := by
  simp [met, meets]

theorem met_meets_expr (t : Trail) (e v : ExprId) :
    (t.meets (.expr e)).met v = t.met v + if e = v then 1 else 0 := by
  simp [met, meets, List.count_singleton]

/-- The shared nodes that have been entered are those that have been met. -/
def EntersMet (a : Arena) (t : Trail) : Prop :=
  ∀ e, a.isShared e = true → (t.entered.contains e = true ↔ 0 < t.met e)

/-- The later trail has met each of `xs` once more, and the operands of what was entered since. -/
def Adds (a : Arena) (t : Trail) (xs : List ExprId) (t' : Trail) : Prop :=
  ∀ v, t'.met v + a.inflow t.met v = t.met v + xs.count v + a.inflow t'.met v

theorem Adds.nil (a : Arena) (t : Trail) : t.Adds a [] t := by
  intro v
  rw [List.count_nil, Nat.add_zero]

theorem Adds.append {a : Arena} {t t' t'' : Trail} {xs ys : List ExprId} (h : t.Adds a xs t')
    (h' : t'.Adds a ys t'') : t.Adds a (xs ++ ys) t'' := by
  intro v
  have hv := h v
  have hv' := h' v
  rw [List.count_append]
  omega

theorem adds_meets_again {a : Arena} {t : Trail} {e : ExprId} (hshared : a.isShared e = true)
    (hmet : 0 < t.met e) : t.Adds a [e] (t.meets (.expr e)) := by
  have hentries : ∀ u, a.entries (t.meets (.expr e)).met u = a.entries t.met u := fun u => by
    unfold Arena.entries
    by_cases hu : e = u
    · subst hu
      simp [hshared, hmet, met_meets_expr]
    · simp [met_meets_expr, hu]
  have hinflow : ∀ v, a.inflow (t.meets (.expr e)).met v = a.inflow t.met v := fun v => by
    unfold Arena.inflow
    exact Finset.sum_congr rfl fun u _ => by rw [hentries u]
  intro v
  rw [hinflow v, met_meets_expr, List.count_singleton]
  simp

/-- Meeting a node that is entered adds its operands, which the rest of its walk adds up for. -/
theorem adds_meets_first {a : Arena} {t t' : Trail} {e : ExprId} {n : Node}
    (he : a.get? e = some n) (hfirst : n.isShared = true → t.met e = 0) {s : Trail}
    (hs : s.met = (t.meets (.expr e)).met) (h : s.Adds a n.operands t') : t.Adds a [e] t' := by
  have hentries : ∀ u, a.entries s.met u = a.entries t.met u + if e = u then 1 else 0 := fun u => by
    unfold Arena.entries
    rw [hs, met_meets_expr]
    by_cases hu : e = u
    · subst hu
      rw [Arena.isShared_eq he]
      cases hshared : n.isShared with
      | true => simp [hfirst hshared]
      | false => simp
    · simp [hu]
  intro v
  have hv := h v
  rw [Arena.inflow_of_entries (Arena.lt_size_of_get? he) hentries, Arena.operandCount_eq he, hs,
    met_meets_expr] at hv
  rw [List.count_singleton]
  simp only [beq_iff_eq]
  omega

theorem EntersMet.meets_stmt {a : Arena} {t : Trail} (h : t.EntersMet a) (i : Nat) :
    (t.meets (.stmt i)).EntersMet a := by
  intro e he
  rw [met_meets_stmt]
  exact h e he

/-- Meeting a node keeps to the rule if a shared node is entered with it. -/
theorem EntersMet.meets_expr {a : Arena} {t : Trail} (h : t.EntersMet a) {e : ExprId} {s : Trail}
    (hmet : s.met = (t.meets (.expr e)).met)
    (hentered : ∀ u, a.isShared u = true → (s.entered.contains u = true ↔
      e = u ∨ t.entered.contains u = true)) : s.EntersMet a := by
  intro u hu
  rw [hentered u hu, hmet, met_meets_expr, h u hu]
  by_cases hue : e = u
  · simp [hue]
  · simp [hue]

end Trail

namespace Arena

variable {a : Arena}

@[simp] theorem met_entering (n : Node) (e : ExprId) (t : Trail) :
    (entering n e t).met = (t.meets (.expr e)).met := by
  unfold entering
  split <;> rfl

private theorem addsCases (a : Arena) : WalkCases a
    (fun e t t' => t.EntersMet a → t'.EntersMet a ∧ t.Adds a [e] t')
    (fun xs t t' => t.EntersMet a → t'.EntersMet a ∧ t.Adds a xs t') where
  again {e n t} he hshared hcontains := fun ht => by
    have hshared' := (isShared_eq he).trans hshared
    refine ⟨ht.meets_expr rfl fun u _ => ?_, Trail.adds_meets_again hshared'
      ((ht e hshared').mp hcontains)⟩
    constructor
    · exact fun hu => Or.inr hu
    · rintro (rfl | hu)
      · exact hcontains
      · exact hu
  first {e n t t'} he hfirst _ ih := fun ht => by
    have hentering : (entering n e t).EntersMet a := by
      refine ht.meets_expr (met_entering n e t) fun u hu => ?_
      unfold entering
      cases hshared : n.isShared with
      | true => simp [Trail.enters, Trail.meets]
      | false =>
          have hne : e ≠ u := by
            rintro rfl
            rw [isShared_eq he, hshared] at hu
            cases hu
          simp [hne, Trail.meets]
    obtain ⟨ht', hadds⟩ := ih hentering
    refine ⟨ht', Trail.adds_meets_first he (fun hshared => ?_) (met_entering n e t) hadds⟩
    have hnot := (ht e ((isShared_eq he).trans hshared)).not.mp (by simp [hfirst hshared])
    omega
  nil := fun ht => ⟨ht, Trail.Adds.nil a _⟩
  cons hx hxs := fun ht => by
    obtain ⟨hs, hadds⟩ := hx ht
    obtain ⟨ht', hadds'⟩ := hxs hs
    exact ⟨ht', hadds.append hadds'⟩

theorem adds_walk {e : ExprId} {t t' : Trail} (h : a.walk e t = some t') (ht : t.EntersMet a) :
    t'.EntersMet a ∧ t.Adds a [e] t' :=
  (addsCases a).of_walk h ht

end Arena

/-! ## The visits of a body -/

namespace Procedure

def roots (p : Procedure) : List ExprId :=
  p.body.toList.filterMap Stmt.expr?

/-- The equations for how often each node is visited: once for each statement that evaluates it,
and as an operand as often as its node is visited, but only once if that node is shared. -/
def IsVisits (p : Procedure) (visits : ExprId → Nat) : Prop :=
  ∀ v, v < p.arena.size → visits v = p.roots.count v +
    ∑ u ∈ range p.arena.size with p.arena.isShared u = false,
      visits u * p.arena.operandCount u v +
    ∑ u ∈ range p.arena.size with p.arena.isShared u = true ∧ 0 < visits u,
      p.arena.operandCount u v

variable {p : Procedure}

theorem isVisits_iff {visits : ExprId → Nat} :
    p.IsVisits visits ↔
      ∀ v, v < p.arena.size → visits v = p.roots.count v + p.arena.inflow visits v := by
  have hsplit : ∀ v, p.arena.inflow visits v =
      ∑ u ∈ range p.arena.size with p.arena.isShared u = false,
        visits u * p.arena.operandCount u v +
      ∑ u ∈ range p.arena.size with p.arena.isShared u = true ∧ 0 < visits u,
        p.arena.operandCount u v := fun v => by
    unfold Arena.inflow
    rw [Finset.sum_filter, Finset.sum_filter, ← Finset.sum_add_distrib]
    refine Finset.sum_congr rfl fun u _ => ?_
    unfold Arena.entries
    cases p.arena.isShared u <;> simp
  unfold IsVisits
  simp only [hsplit, Nat.add_assoc]

/-- Operands stand before their nodes, so the equations determine the visits of each node from
those of the nodes behind it. -/
theorem IsVisits.unique (hp : p.arena.OperandsPrecede) {visits visits' : ExprId → Nat}
    (h : p.IsVisits visits) (h' : p.IsVisits visits') :
    ∀ v, v < p.arena.size → visits v = visits' v := by
  rw [isVisits_iff] at h h'
  -- The induction is on the number of nodes behind.
  have hbehind : ∀ (k v : Nat), p.arena.size - v ≤ k → v < p.arena.size →
      visits v = visits' v := by
    intro k
    induction k with
    | zero =>
        intro v hk hv
        omega
    | succ k ih =>
        intro v hk hv
        rw [h v hv, h' v hv]
        congr 1
        refine Finset.sum_congr rfl fun u hu => ?_
        by_cases huv : p.arena.operandCount u v = 0
        · rw [huv, Nat.mul_zero, Nat.mul_zero]
        · have hlt : v < u := hp.lt_of_operandCount huv
          have heq := ih u (by omega) (mem_range.mp hu)
          unfold Arena.entries
          rw [heq]
  exact fun v hv => hbehind _ v (Nat.le_refl _) hv

theorem adds_walkStmt {s : Stmt} {i : Nat} {t t' : Trail} (h : p.walkStmt t (s, i) = some t')
    (ht : t.EntersMet p.arena) :
    t'.EntersMet p.arena ∧ t.Adds p.arena s.expr?.toList t' := by
  have hmet : (t.meets (.stmt i)).met = t.met := funext fun v => Trail.met_meets_stmt t i v
  unfold walkStmt at h
  cases hroot : s.expr? with
  | none =>
      simp only [hroot] at h
      obtain rfl := Option.some.inj h
      refine ⟨ht.meets_stmt i, fun v => ?_⟩
      rw [hmet, Option.toList_none, List.count_nil, Nat.add_zero]
  | some e =>
      simp only [hroot] at h
      obtain ⟨ht', hadds⟩ := Arena.adds_walk h (ht.meets_stmt i)
      refine ⟨ht', fun v => ?_⟩
      have hv := hadds v
      rw [hmet] at hv
      exact hv

theorem adds_walkStmts : ∀ {ss : List Stmt} {k : Nat} {t t' : Trail},
    (ss.zipIdx k).foldlM p.walkStmt t = some t' → t.EntersMet p.arena →
      t'.EntersMet p.arena ∧ t.Adds p.arena (ss.filterMap Stmt.expr?) t'
  | [], _, _, _, h, ht => by
      obtain rfl := Option.some.inj h
      exact ⟨ht, Trail.Adds.nil _ _⟩
  | s :: ss, k, t, t', h, ht => by
      rw [List.zipIdx_cons, List.foldlM_cons] at h
      obtain ⟨t₁, hs, h⟩ := Option.bind_eq_some_iff.mp h
      obtain ⟨ht₁, hadds⟩ := adds_walkStmt hs ht
      obtain ⟨ht', hadds'⟩ := adds_walkStmts h ht₁
      refine ⟨ht', ?_⟩
      have happend : (s :: ss).filterMap Stmt.expr? =
          s.expr?.toList ++ ss.filterMap Stmt.expr? := by
        cases hroot : s.expr? <;> simp [hroot]
      rw [happend]
      exact hadds.append hadds'

theorem Walkable.exists_walkStmts (hp : p.Walkable) : ∀ {ss : List Stmt} {k : Nat} (t : Trail),
    (∀ s ∈ ss, s ∈ p.body.toList) → ∃ t', (ss.zipIdx k).foldlM p.walkStmt t = some t'
  | [], _, t, _ => ⟨t, rfl⟩
  | s :: ss, k, t, hmem => by
      have hs : ∃ t₁, p.walkStmt t (s, k) = some t₁ := by
        unfold walkStmt
        cases hroot : s.expr? with
        | none => exact ⟨_, rfl⟩
        | some e =>
            exact hp.operandsPrecede.exists_walk
              (hp.roots_lt s (hmem s List.mem_cons_self) e hroot) _
      obtain ⟨t₁, hs⟩ := hs
      obtain ⟨t', ht'⟩ := exists_walkStmts hp (k := k + 1) t₁
        fun x hx => hmem x (List.mem_cons_of_mem _ hx)
      refine ⟨t', ?_⟩
      rw [List.zipIdx_cons, List.foldlM_cons, hs]
      exact ht'

/-- The walk of a body meets each expression as often as it is visited. -/
theorem Walkable.exists_visits (hp : p.Walkable) :
    ∃ t : Trail, p.walk = some t.visits ∧ p.IsVisits t.met := by
  obtain ⟨t, ht⟩ := hp.exists_walkStmts (k := 0) {} fun _ h => h
  have hempty : ({} : Trail).EntersMet p.arena := by
    intro e _
    simp [Trail.met]
  obtain ⟨-, hadds⟩ := adds_walkStmts ht hempty
  refine ⟨t, by simp [walk, ht], isVisits_iff.mpr fun v _ => ?_⟩
  have hnone : p.arena.inflow ({} : Trail).met v = 0 := by
    simp [Arena.inflow, Arena.entries, Trail.met]
  have hv := hadds v
  rw [hnone] at hv
  simpa [Trail.met, roots] using hv

/-! ## The uses of shared expressions -/

theorem getD_countShared (p : Procedure) (e : ExprId) :
    ∀ (visits : List Visit) (counts : Std.HashMap ExprId Nat),
      (visits.foldl p.countShared counts).getD e 0 =
        counts.getD e 0 + if p.arena.isShared e then visits.count (.expr e) else 0
  | [], counts => by simp
  | .stmt i :: visits, counts => by
      rw [List.foldl_cons, getD_countShared p e visits]
      simp [countShared]
  | .expr x :: visits, counts => by
      rw [List.foldl_cons, getD_countShared p e visits]
      by_cases hx : x = e
      · subst hx
        cases hshared : p.arena.isShared x with
        | true =>
            unfold Arena.isShared at hshared
            simp only [countShared, hshared, if_true, Std.HashMap.getD_insert_self,
              List.count_cons_self]
            omega
        | false =>
            unfold Arena.isShared at hshared
            simp [countShared, hshared]
      · have hcount : (Visit.expr x :: visits).count (.expr e) = visits.count (.expr e) :=
          List.count_cons_of_ne (by simpa using hx)
        rw [hcount]
        simp only [countShared]
        split
        · rw [Std.HashMap.getD_insert, if_neg (by simpa using hx)]
        · rfl

/-- The uses counted of a body are the visits of its shared expressions. -/
theorem Walkable.exists_sharedUses (hp : p.Walkable) :
    ∃ uses visits, p.sharedUses? = some uses ∧ p.IsVisits visits ∧
      ∀ e, uses.getD e 0 = if p.arena.isShared e then visits e else 0 := by
  obtain ⟨t, hwalk, hvisits⟩ := hp.exists_visits
  refine ⟨t.visits.foldl p.countShared ∅, t.met, by simp [sharedUses?, hwalk], hvisits, ?_⟩
  intro e
  rw [← Array.foldl_toList, getD_countShared]
  simp [Trail.met]

end Procedure

end StackIR
