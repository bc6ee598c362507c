import StackIR.Proofs.Growth
import StackIR.Walk

/-!
# Walks of expressions

A walk of an expression meets its node and, unless the node is shared and was entered before, walks
its operands in order. `Arena.WalkCases` takes a walk that succeeds apart: what holds of each way to
walk a node holds of every walk (`WalkCases.of_walk`). Where operands stand before their nodes,
every walk succeeds (`OperandsPrecede.exists_walk`). What nodes hand on to their operands holds of
all that the walk of a body meets (`Procedure.of_mem_walk`).
-/

namespace StackIR

namespace Arena

/-- The trail on which the operands of a node are walked. -/
def entering (n : Node) (e : ExprId) (t : Trail) : Trail :=
  if n.isShared then (t.meets (.expr e)).enters e else t.meets (.expr e)

def walkEach (a : Arena) (xs : List ExprId) (t : Trail) : Option Trail :=
  xs.foldlM (fun t x => a.walk x t) t

variable {a : Arena}

theorem walkEach_cons_eq_some {x : ExprId} {xs : List ExprId} {t t' : Trail} :
    a.walkEach (x :: xs) t = some t' ↔
      ∃ s, a.walk x t = some s ∧ a.walkEach xs s = some t' := by
  simp [walkEach, Option.bind_eq_some_iff]

/-- Where the operands stand before their node, the check for it changes nothing. -/
theorem guardedWalk_eq {e : ExprId} :
    ∀ {xs : List ExprId} {t : Trail}, (∀ x ∈ xs, x < e) →
      xs.foldlM (fun t x => if x < e then a.walk x t else none) t = a.walkEach xs t
  | [], _, _ => rfl
  | x :: xs, t, h => by
      simp only [walkEach, List.foldlM_cons, if_pos (h x List.mem_cons_self)]
      congr 1
      funext s
      exact guardedWalk_eq fun y hy => h y (List.mem_cons_of_mem _ hy)

theorem lt_of_guardedWalk {e : ExprId} :
    ∀ {xs : List ExprId} {t t' : Trail},
      xs.foldlM (fun t x => if x < e then a.walk x t else none) t = some t' → ∀ x ∈ xs, x < e
  | [], _, _, _, _, hx => by simp at hx
  | y :: ys, t, t', h, x, hx => by
      rw [List.foldlM_cons] at h
      obtain ⟨s, hy, h⟩ := Option.bind_eq_some_iff.mp h
      rcases List.mem_cons.mp hx with rfl | hx
      · by_contra hlt
        rw [if_neg hlt] at hy
        cases hy
      · exact lt_of_guardedWalk h x hx

/-! ### The induction over a walk that succeeds -/

/-- What to show of each way to walk a node: `P` of the node and the trail before and after, and
`Q` likewise of several nodes. -/
structure WalkCases (a : Arena) (P : ExprId → Trail → Trail → Prop)
    (Q : List ExprId → Trail → Trail → Prop) : Prop where
  again : ∀ {e : ExprId} {n : Node} {t : Trail}, a.get? e = some n → n.isShared = true →
    t.entered.contains e = true → P e t (t.meets (.expr e))
  first : ∀ {e : ExprId} {n : Node} {t t' : Trail}, a.get? e = some n →
    (n.isShared = true → t.entered.contains e = false) → (∀ x ∈ n.operands, x < e) →
    Q n.operands (entering n e t) t' → P e t t'
  nil : ∀ {t : Trail}, Q [] t t
  cons : ∀ {x : ExprId} {xs : List ExprId} {t s t' : Trail}, P x t s → Q xs s t' →
    Q (x :: xs) t t'

namespace WalkCases

variable {P : ExprId → Trail → Trail → Prop} {Q : List ExprId → Trail → Trail → Prop}

private theorem each_of_walks (hP : WalkCases a P Q) :
    ∀ {xs : List ExprId} {t t' : Trail},
      (∀ x ∈ xs, ∀ {t t' : Trail}, a.walk x t = some t' → P x t t') →
      a.walkEach xs t = some t' → Q xs t t'
  | [], _, _, _, h => by
      obtain rfl := Option.some.inj h
      exact hP.nil
  | x :: xs, _, _, hxs, h => by
      obtain ⟨s, hx, h⟩ := walkEach_cons_eq_some.mp h
      exact hP.cons (hxs x List.mem_cons_self hx)
        (each_of_walks hP (fun y hy => hxs y (List.mem_cons_of_mem _ hy)) h)

/-- What holds of each way to walk a node holds of every walk that succeeds. -/
theorem of_walk (hP : WalkCases a P Q) {e : ExprId} :
    ∀ {t t' : Trail}, a.walk e t = some t' → P e t t' := by
  -- The operands of a node stand before it, so the induction is on the position.
  induction e using Nat.strong_induction_on with
  | _ e ih =>
      intro t t' h
      rw [walk] at h
      cases he : a.get? e with
      | none => simp [he] at h
      | some n =>
          simp only [he] at h
          have hentered : (t.meets (.expr e)).entered = t.entered := rfl
          rw [hentered] at h
          by_cases hagain : (n.isShared && t.entered.contains e) = true
          · rw [if_pos hagain] at h
            obtain ⟨hshared, hcontains⟩ := Bool.and_eq_true_iff.mp hagain
            obtain rfl := Option.some.inj h
            exact hP.again he hshared hcontains
          · rw [if_neg hagain] at h
            have hlt := lt_of_guardedWalk h
            rw [guardedWalk_eq hlt] at h
            refine hP.first he (fun hshared => ?_) hlt
              (each_of_walks hP (fun x hx => ih x (hlt x hx)) h)
            simpa [hshared] using hagain

end WalkCases

/-- Where operands stand before their nodes, every walk succeeds. -/
theorem OperandsPrecede.exists_walk (h : a.OperandsPrecede) {e : ExprId} (he : e < a.size)
    (t : Trail) : ∃ t', a.walk e t = some t' := by
  induction e using Nat.strong_induction_on generalizing t with
  | _ e ih =>
      obtain ⟨n, hn⟩ := exists_get?_of_lt he
      have hlt := h e n hn
      have heach : ∀ (xs : List ExprId), (∀ x ∈ xs, x < e) → ∀ t : Trail,
          ∃ t', a.walkEach xs t = some t' := by
        intro xs
        induction xs with
        | nil => exact fun _ t => ⟨t, rfl⟩
        | cons x xs ihxs =>
            intro hxs t
            obtain ⟨s, hs⟩ := ih x (hxs x List.mem_cons_self)
              (Nat.lt_trans (hxs x List.mem_cons_self) he) t
            obtain ⟨t', ht'⟩ := ihxs (fun y hy => hxs y (List.mem_cons_of_mem _ hy)) s
            exact ⟨t', walkEach_cons_eq_some.mpr ⟨s, hs, ht'⟩⟩
      rw [walk]
      simp only [hn, guardedWalk_eq hlt]
      split
      · exact ⟨_, rfl⟩
      · exact heach n.operands hlt _

/-! ### What a walk meets -/

/-- What every node hands on to its operands holds of all that a walk meets. -/
theorem metCases (a : Arena) {S : ExprId → Prop} (hS : ∀ {e x : ExprId} {n m : Node},
      a.get? e = some n → S e → x ∈ n.operands → a.get? x = some m → S x) : WalkCases a
    (fun e t t' => (∀ n, a.get? e = some n → S e) → (∀ x, .expr x ∈ t.visits → S x) →
      ∀ x, .expr x ∈ t'.visits → S x)
    (fun xs t t' => (∀ x ∈ xs, ∀ n, a.get? x = some n → S x) →
      (∀ x, .expr x ∈ t.visits → S x) → ∀ x, .expr x ∈ t'.visits → S x) where
  again {e n t} he _ _ hself ht x hx := by
    rcases Array.mem_push.mp hx with hx | hx
    · exact ht x hx
    · exact Visit.expr.inj hx ▸ hself n he
  first {e n t t'} he _ _ ih hself ht := by
    refine ih (fun x hx m hm => hS he (hself n he) hx hm) fun x hx => ?_
    have hx : Visit.expr x ∈ t.visits.push (.expr e) := by
      unfold entering at hx
      split at hx <;> exact hx
    rcases Array.mem_push.mp hx with hx | hx
    · exact ht x hx
    · exact Visit.expr.inj hx ▸ hself n he
  nil _ ht := ht
  cons hx hxs hself ht := hxs (fun y hy => hself y (List.mem_cons_of_mem _ hy))
    (hx (hself _ List.mem_cons_self) ht)

end Arena

namespace Procedure

variable {p : Procedure} {S : ExprId → Prop}

theorem of_mem_walkStmts (hS : ∀ {e x : ExprId} {n m : Node}, p.arena.get? e = some n → S e →
      x ∈ n.operands → p.arena.get? x = some m → S x) : ∀ {ss : List (Stmt × Nat)} {t t' : Trail},
    (∀ s ∈ ss, ∀ e n, s.1.expr? = some e → p.arena.get? e = some n → S e) →
      ss.foldlM p.walkStmt t = some t' → (∀ x, .expr x ∈ t.visits → S x) →
        ∀ x, .expr x ∈ t'.visits → S x
  | [], _, _, _, h, ht => by
      obtain rfl := Option.some.inj h
      exact ht
  | s :: ss, t, t', hroots, h, ht => by
      rw [List.foldlM_cons] at h
      obtain ⟨t₁, hs, h⟩ := Option.bind_eq_some_iff.mp h
      refine of_mem_walkStmts hS (fun s' hs' => hroots s' (List.mem_cons_of_mem _ hs')) h ?_
      have hmeets : ∀ x, .expr x ∈ (t.meets (.stmt s.2)).visits → S x := fun x hx =>
        ht x (by simpa [Trail.meets] using hx)
      unfold walkStmt at hs
      cases hroot : s.1.expr? with
      | none =>
          simp only [hroot] at hs
          exact Option.some.inj hs ▸ hmeets
      | some e =>
          simp only [hroot] at hs
          exact (p.arena.metCases hS).of_walk hs
            (fun n hn => hroots s List.mem_cons_self e n hroot hn) hmeets

/-- What the roots of a body have, and every node hands on to its operands, all have that the walk
of the body meets. -/
theorem of_mem_walk (hS : ∀ {e x : ExprId} {n m : Node}, p.arena.get? e = some n → S e →
      x ∈ n.operands → p.arena.get? x = some m → S x)
    (hroots : ∀ s ∈ p.body.toList, ∀ e n, s.expr? = some e → p.arena.get? e = some n → S e)
    {visits : Array Visit} (h : p.walk = some visits) : ∀ x, .expr x ∈ visits → S x := by
  obtain ⟨t, ht, hvisits⟩ := Option.bind_eq_some_iff.mp h
  obtain rfl := Option.some.inj hvisits
  refine of_mem_walkStmts hS (fun s hs => ?_) ht (by simp)
  exact hroots s.1 (List.fst_mem_of_mem_zipIdx hs)

end Procedure

end StackIR
