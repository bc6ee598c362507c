import Mathlib.Logic.Function.Basic
import StackIR.Proofs.Growth

/-!
# Evaluation of expression nodes

What a node means on a machine. The machine fixes the values and how it answers each effect
(`Machine`), a `Run` is the state the machine has reached and the effects so far, and a `Session` is
a run together with the values of the shared nodes computed in it. A node evaluates its operands
from the left and then acts on their values (`Machine.act`); a shared node evaluates its operand
only if its value is not known yet (`Arena.eval`).

An evaluation is local: it looks at no node behind the one it starts from and leaves the values of
those nodes alone (`Arena.eval_frame`, `Arena.evalEach_local`). So it comes out the same in every
later arena (`Arena.GrowsTo.eval_eq_some`), whatever has become known of the nodes added since.
-/

namespace StackIR

universe u

/-! ## Machines -/

/-- What an evaluation asks of the machine. -/
inductive Effect (V : Type u) where
  | slot (cell : Cell)
  | call (name : String) (isAsync : Bool) (args : List V)
  | procCall (callee : ProcId) (isAsync : Bool) (args : List V)
  | store (target value : V)
  | retain (value : V)
  | release (value : V)
  | jumpValue

/-- A machine with values in `V` and states in `W`. Nothing is assumed of its answers. -/
structure Machine (V W : Type u) where
  unit : V
  literal : Literal → V
  pointer : (label info : String) → V
  field : V → Nat → V
  /-- The answer to an effect, and the state after it. -/
  answer : Effect V → W → V × W

/-- How far a machine has come: its state, and the effects so far in order. -/
structure Run (V W : Type u) where
  world : W
  trace : List (Effect V)

/-- A run, with the values of the shared nodes computed in it. -/
structure Session (V W : Type u) where
  run : Run V W
  known : ExprId → Option V

variable {V W : Type u}

namespace Machine

def perform (M : Machine V W) (x : Effect V) (r : Run V W) : V × Run V W :=
  let (v, world) := M.answer x r.world
  (v, { world, trace := r.trace ++ [x] })

def releaseEach (M : Machine V W) (vs : List V) (r : Run V W) : Run V W :=
  vs.foldl (fun r v => (M.perform (.release v) r).2) r

/-- What a node does with the values of its operands. -/
def act (M : Machine V W) : Node → List V → Run V W → V × Run V W
  | .literal value, _, r => (M.literal value, r)
  | .pointer label info, _, r => (M.pointer label info, r)
  | .cell c, _, r => M.perform (.slot c) r
  | .runtimeCall name isAsync _, vs, r => M.perform (.call name isAsync vs) r
  | .procCall callee isAsync _, vs, r => M.perform (.procCall callee isAsync vs) r
  | .field _ index, [v], r => (M.field v index, r)
  | .store .., [target, value], r => M.perform (.store target value) r
  | .retain _, [v], r => (v, (M.perform (.retain v) r).2)
  | .release _, [v], r => (M.unit, (M.perform (.release v) r).2)
  | .sequence _, vs, r => (vs.getLastD M.unit, r)
  | .jumpValue, _, r => M.perform .jumpValue r
  -- No node has another number of operands, and shared nodes do not act.
  | .field .., _, r | .store .., _, r | .retain _, _, r | .release _, _, r | .shared _, _, r =>
    (M.unit, r)

end Machine

def Session.learn (s : Session V W) (e : ExprId) (v : V) : Session V W :=
  { s with known := Function.update s.known e (some v) }

def Session.act (M : Machine V W) (s : Session V W) (n : Node) (vs : List V) :
    V × Session V W :=
  ((M.act n vs s.run).1, { s with run := (M.act n vs s.run).2 })

/-- The value of a node and the session after it. It fails outside the arena and on an operand
that does not stand before its node. -/
def Arena.eval (M : Machine V W) (a : Arena) (e : ExprId) : StateT (Session V W) Option V :=
  fun s =>
    match a.get? e with
    | none => none
    | some (.shared x) =>
      match s.known e with
      | some v => some (v, s)
      | none => if x < e then (a.eval M x s).map fun (v, s) => (v, s.learn e v) else none
    | some n => do
      let (vs, s) ← (n.operands.mapM fun x => if x < e then a.eval M x else failure) s
      return s.act M n vs
termination_by e

def Arena.evalEach (M : Machine V W) (a : Arena) (es : List ExprId) :
    StateT (Session V W) Option (List V) :=
  es.mapM (a.eval M)

@[simp] theorem Session.learn_known_self (s : Session V W) (e : ExprId) (v : V) :
    (s.learn e v).known e = some v := by
  simp [learn]

theorem Session.learn_known_of_ne (s : Session V W) {e x : ExprId} (h : x ≠ e) (v : V) :
    (s.learn e v).known x = s.known x := by
  simp [learn, h]

/-- The later session has kept every value known in the earlier one. -/
def Session.Keeps (s t : Session V W) : Prop :=
  ∀ x v, s.known x = some v → t.known x = some v

/-- Two sessions with the same run that know the same of the nodes below `n`. -/
structure Session.AgreesBelow (s : Session V W) (n : ExprId) (t : Session V W) : Prop where
  run_eq : t.run = s.run
  known_eq : ∀ x, x < n → t.known x = s.known x

namespace Session.AgreesBelow

variable {s t : Session V W} {n : ExprId}

theorem learn (h : s.AgreesBelow n t) (e : ExprId) (v : V) :
    (s.learn e v).AgreesBelow n (t.learn e v) where
  run_eq := h.run_eq
  known_eq x hx := by
    by_cases hxe : x = e
    · rw [hxe, learn_known_self, learn_known_self]
    · rw [learn_known_of_ne _ hxe, learn_known_of_ne _ hxe, h.known_eq x hx]

theorem act_fst (h : s.AgreesBelow n t) (M : Machine V W) (m : Node) (vs : List V) :
    (t.act M m vs).1 = (s.act M m vs).1 := by
  simp only [Session.act, h.run_eq]

theorem act (h : s.AgreesBelow n t) (M : Machine V W) (m : Node) (vs : List V) :
    (s.act M m vs).2.AgreesBelow n (t.act M m vs).2 where
  run_eq := by simp only [Session.act, h.run_eq]
  known_eq x hx := h.known_eq x hx

end Session.AgreesBelow

namespace Arena

variable {M : Machine V W} {a : Arena}

/-! ## Unfolding an evaluation -/

theorem evalEach_nil (s : Session V W) : a.evalEach M [] s = some ([], s) := rfl

theorem evalEach_cons_eq_some {e : ExprId} {es : List ExprId} {vs : List V}
    {s t : Session V W} :
    a.evalEach M (e :: es) s = some (vs, t) ↔
      ∃ v s₁ ws, a.eval M e s = some (v, s₁) ∧ a.evalEach M es s₁ = some (ws, t) ∧
        vs = v :: ws := by
  rw [evalEach, List.mapM_cons]
  show ((a.eval M e s).bind fun p => (a.evalEach M es p.2).bind fun q =>
    some (p.1 :: q.1, q.2)) = some (vs, t) ↔ _
  simp only [Option.bind_eq_some_iff, Option.some.injEq, Prod.mk.injEq, Prod.exists]
  constructor
  · rintro ⟨v, s₁, hv, ws, s₂, hws, rfl, rfl⟩
    exact ⟨v, s₁, ws, hv, hws, rfl⟩
  · rintro ⟨v, s₁, ws, hv, hws, rfl⟩
    exact ⟨v, s₁, hv, ws, t, hws, rfl, rfl⟩

theorem evalEach_append_eq_some {es fs : List ExprId} {us vs : List V} {s t u : Session V W}
    (hes : a.evalEach M es s = some (us, t)) (hfs : a.evalEach M fs t = some (vs, u)) :
    a.evalEach M (es ++ fs) s = some (us ++ vs, u) := by
  induction es generalizing s us with
  | nil =>
      obtain ⟨rfl, rfl⟩ := Prod.mk.injEq .. |>.mp (Option.some.inj hes)
      exact hfs
  | cons e es ih =>
      obtain ⟨v, s₁, ws, hv, hws, rfl⟩ := evalEach_cons_eq_some.mp hes
      exact evalEach_cons_eq_some.mpr ⟨v, s₁, ws ++ vs, hv, ih hws, rfl⟩

/-- Where the operands stand before their node, the check for it changes nothing. -/
theorem guardedEach_eq {e : ExprId} :
    ∀ {xs : List ExprId}, (∀ x ∈ xs, x < e) →
      (xs.mapM fun x => if x < e then a.eval M x else failure) = a.evalEach M xs
  | [], _ => rfl
  | x :: xs, h => by
      have hxs := guardedEach_eq fun y hy => h y (List.mem_cons_of_mem _ hy)
      simp only [List.mapM_cons, hxs, if_pos (h x List.mem_cons_self), evalEach]

/-- Operands that can be evaluated stand before their node. -/
theorem lt_of_guardedEach {e : ExprId} :
    ∀ {xs : List ExprId} {s : Session V W} {r : List V × Session V W},
      (xs.mapM fun x => if x < e then a.eval M x else failure) s = some r → ∀ x ∈ xs, x < e
  | [], _, _, _, _, hx => by simp at hx
  | y :: ys, s, r, h, x, hx => by
      simp only [List.mapM_cons, bind, StateT.bind, Option.bind_eq_some_iff] at h
      obtain ⟨⟨v, t⟩, hv, ⟨ws, u⟩, hws, -⟩ := h
      rcases List.mem_cons.mp hx with rfl | hx
      · by_contra hlt
        rw [if_neg hlt] at hv
        cases hv
      · exact lt_of_guardedEach hws x hx

theorem eval_known {e x : ExprId} {v : V} {s : Session V W} (he : a.get? e = some (.shared x))
    (hv : s.known e = some v) : a.eval M e s = some (v, s) := by
  rw [eval, he]
  simp only [hv]

theorem eval_shared {e x : ExprId} {v : V} {s t : Session V W}
    (he : a.get? e = some (.shared x)) (hs : s.known e = none) (hx : x < e)
    (hv : a.eval M x s = some (v, t)) : a.eval M e s = some (v, t.learn e v) := by
  rw [eval, he]
  simp only [hs, if_pos hx, hv]
  rfl

theorem eval_node {e : ExprId} {n : Node} {vs : List V} {s t : Session V W}
    (he : a.get? e = some n) (hn : n.isShared = false) (hlt : ∀ x ∈ n.operands, x < e)
    (hvs : a.evalEach M n.operands s = some (vs, t)) :
    a.eval M e s = some (t.act M n vs) := by
  rw [eval, he]
  cases n with
  | shared x => simp [Node.isShared] at hn
  | _ =>
      simp only [guardedEach_eq hlt, hvs]
      rfl

theorem eval_unary {e x : ExprId} {n : Node} {v : V} {s t : Session V W}
    (he : a.get? e = some n) (hn : n.isShared = false) (hops : n.operands = [x]) (hlt : x < e)
    (hv : a.eval M x s = some (v, t)) : a.eval M e s = some (t.act M n [v]) := by
  refine eval_node he hn ?_ ?_
  · simpa [hops] using hlt
  · rw [hops]
    exact evalEach_cons_eq_some.mpr ⟨v, t, [], hv, rfl, rfl⟩

/-! ## The induction over a successful evaluation -/

/-- What to show of each way to evaluate a node: `P` of the node, the session before, its value and
the session after, and `Q` likewise of several nodes. -/
structure EvalCases (M : Machine V W) (a : Arena)
    (P : ExprId → Session V W → V → Session V W → Prop)
    (Q : List ExprId → Session V W → List V → Session V W → Prop) : Prop where
  known : ∀ {e x : ExprId} {v : V} {s : Session V W}, a.get? e = some (.shared x) →
    s.known e = some v → P e s v s
  shared : ∀ {e x : ExprId} {v : V} {s t : Session V W}, a.get? e = some (.shared x) →
    s.known e = none → x < e → P x s v t → P e s v (t.learn e v)
  node : ∀ {e : ExprId} {n : Node} {vs : List V} {s t : Session V W}, a.get? e = some n →
    n.isShared = false → (∀ x ∈ n.operands, x < e) → Q n.operands s vs t →
    P e s (t.act M n vs).1 (t.act M n vs).2
  nil : ∀ {s : Session V W}, Q [] s [] s
  cons : ∀ {e : ExprId} {es : List ExprId} {v : V} {vs : List V} {s t u : Session V W},
    P e s v t → Q es t vs u → Q (e :: es) s (v :: vs) u

namespace EvalCases

variable {P : ExprId → Session V W → V → Session V W → Prop}
  {Q : List ExprId → Session V W → List V → Session V W → Prop}

private theorem each_of_all (hP : EvalCases M a P Q) :
    ∀ {es : List ExprId} {s t : Session V W} {vs : List V},
      (∀ e ∈ es, ∀ {s t : Session V W} {v : V}, a.eval M e s = some (v, t) → P e s v t) →
      a.evalEach M es s = some (vs, t) → Q es s vs t
  | [], _, _, _, _, h => by
      obtain ⟨rfl, rfl⟩ := Prod.mk.injEq .. |>.mp (Option.some.inj h)
      exact hP.nil
  | e :: es, _, _, _, hes, h => by
      obtain ⟨v, s₁, ws, hv, hws, rfl⟩ := evalEach_cons_eq_some.mp h
      exact hP.cons (hes e List.mem_cons_self hv)
        (each_of_all hP (fun x hx => hes x (List.mem_cons_of_mem _ hx)) hws)

/-- What holds of each way to evaluate a node holds of every evaluation that succeeds. -/
theorem of_eval (hP : EvalCases M a P Q) {e : ExprId} :
    ∀ {s t : Session V W} {v : V}, a.eval M e s = some (v, t) → P e s v t := by
  -- The operands of a node stand before it, so the induction is on the position.
  induction e using Nat.strong_induction_on with
  | _ e ih =>
      intro s t v h
      rw [eval] at h
      split at h
      next => cases h
      next x he =>
          split at h
          next u hu =>
              obtain ⟨rfl, rfl⟩ := Prod.mk.injEq .. |>.mp (Option.some.inj h)
              exact hP.known he hu
          next hs =>
              split at h
              next hx =>
                  obtain ⟨⟨u, t'⟩, hu, h⟩ := Option.map_eq_some_iff.mp h
                  obtain ⟨rfl, rfl⟩ := Prod.mk.injEq .. |>.mp h
                  exact hP.shared he hs hx (ih x hx hu)
              next => cases h
      next n hn he =>
          obtain ⟨⟨vs, t'⟩, hvs, h⟩ := Option.bind_eq_some_iff.mp h
          have hshared : n.isShared = false := by
            cases n with
            | shared x => exact absurd rfl (hn x)
            | _ => rfl
          have hlt := lt_of_guardedEach hvs
          rw [guardedEach_eq hlt] at hvs
          obtain ⟨rfl, rfl⟩ := Prod.ext_iff.mp (Option.some.inj h)
          exact hP.node he hshared hlt (each_of_all hP (fun x hx => ih x (hlt x hx)) hvs)

theorem of_evalEach (hP : EvalCases M a P Q) {es : List ExprId} {s t : Session V W} {vs : List V}
    (h : a.evalEach M es s = some (vs, t)) : Q es s vs t :=
  each_of_all hP (fun _ _ => hP.of_eval) h

end EvalCases

/-! ## Locality -/

private theorem frameCases : EvalCases M a
    (fun e s _ t => ∀ x, e < x → t.known x = s.known x)
    (fun es s _ t => ∀ x, (∀ e ∈ es, e < x) → t.known x = s.known x) where
  known _ _ := fun _ _ => rfl
  shared _ _ hlt ih := fun y hy => by
    rw [Session.learn_known_of_ne _ (Nat.ne_of_gt hy), ih y (Nat.lt_trans hlt hy)]
  node _ _ hlt ih := fun y hy => ih y fun x hx => Nat.lt_trans (hlt x hx) hy
  nil := fun _ _ => rfl
  cons ihe ihes := fun y hy => by
    rw [ihes y fun x hx => hy x (List.mem_cons_of_mem _ hx), ihe y (hy _ List.mem_cons_self)]

/-- An evaluation leaves the values of the nodes behind its own alone. -/
theorem eval_frame {e x : ExprId} {v : V} {s t : Session V W} (h : a.eval M e s = some (v, t))
    (hx : e < x) : t.known x = s.known x :=
  frameCases.of_eval h x hx

theorem evalEach_frame {es : List ExprId} {x : ExprId} {vs : List V} {s t : Session V W}
    (h : a.evalEach M es s = some (vs, t)) (hx : ∀ e ∈ es, e < x) : t.known x = s.known x :=
  frameCases.of_evalEach h x hx

private theorem keepsCases :
    EvalCases M a (fun _ s _ t => s.Keeps t) (fun _ s _ t => s.Keeps t) where
  known _ _ := fun _ _ h => h
  shared _ hs _ ih := fun y u hy => by
    rw [Session.learn_known_of_ne _ (fun heq => by rw [heq, hs] at hy; cases hy)]
    exact ih y u hy
  node _ _ _ ih := ih
  nil := fun _ _ h => h
  cons ihe ihes := fun y u hy => ihes y u (ihe y u hy)

theorem evalEach_keeps {es : List ExprId} {vs : List V} {s t : Session V W}
    (h : a.evalEach M es s = some (vs, t)) : s.Keeps t :=
  keepsCases.of_evalEach h

theorem known_of_eval {e x : ExprId} {v : V} {s t : Session V W}
    (he : a.get? e = some (.shared x)) (h : a.eval M e s = some (v, t)) :
    t.known e = some v := by
  cases hs : s.known e with
  | some u =>
      rw [eval_known he hs] at h
      obtain ⟨rfl, rfl⟩ := Prod.mk.injEq .. |>.mp (Option.some.inj h)
      exact hs
  | none =>
      rw [eval, he] at h
      simp only [hs] at h
      split at h
      · obtain ⟨⟨u, t'⟩, -, h⟩ := Option.map_eq_some_iff.mp h
        obtain ⟨rfl, rfl⟩ := Prod.mk.injEq .. |>.mp h
        exact Session.learn_known_self ..
      · cases h

private theorem localCases : EvalCases M a
    (fun e s v t => ∀ {n : ExprId} {s' : Session V W}, e < n → s.AgreesBelow n s' →
      ∃ t', a.eval M e s' = some (v, t') ∧ t.AgreesBelow n t')
    (fun es s vs t => ∀ {n : ExprId} {s' : Session V W}, (∀ e ∈ es, e < n) →
      s.AgreesBelow n s' → ∃ t', a.evalEach M es s' = some (vs, t') ∧ t.AgreesBelow n t') where
  known he hv := fun hlt hs => ⟨_, eval_known he ((hs.known_eq _ hlt).trans hv), hs⟩
  shared he hs hx ih := fun hlt hag => by
    obtain ⟨t', ht', hag'⟩ := ih (Nat.lt_trans hx hlt) hag
    exact ⟨_, eval_shared he ((hag.known_eq _ hlt).trans hs) hx ht', hag'.learn _ _⟩
  node he hn hx ih := fun hlt hag => by
    obtain ⟨t', ht', hag'⟩ := ih (fun x hmem => Nat.lt_trans (hx x hmem) hlt) hag
    refine ⟨_, (eval_node he hn hx ht').trans ?_, hag'.act M _ _⟩
    rw [← hag'.act_fst]
  nil := fun _ hag => ⟨_, rfl, hag⟩
  cons ihe ihes := fun hlt hag => by
    obtain ⟨t', ht', hag'⟩ := ihe (hlt _ List.mem_cons_self) hag
    obtain ⟨u', hu', hag''⟩ := ihes (fun x hx => hlt x (List.mem_cons_of_mem _ hx)) hag'
    exact ⟨u', evalEach_cons_eq_some.mpr ⟨_, _, _, ht', hu', rfl⟩, hag''⟩

/-- An evaluation does not depend on the values of nodes behind its own. -/
theorem evalEach_local {es : List ExprId} {n : ExprId} {vs : List V} {s t s' : Session V W}
    (h : a.evalEach M es s = some (vs, t)) (hes : ∀ e ∈ es, e < n) (hs : s.AgreesBelow n s') :
    ∃ t', a.evalEach M es s' = some (vs, t') ∧ t.AgreesBelow n t' :=
  localCases.of_evalEach h hes hs

private theorem growsToCases {b : Arena} (hab : a.GrowsTo b) : EvalCases M a
    (fun e s v t => b.eval M e s = some (v, t))
    (fun es s vs t => b.evalEach M es s = some (vs, t)) where
  known he hv := eval_known (hab.get?_of_some he) hv
  shared he hs hx ih := eval_shared (hab.get?_of_some he) hs hx ih
  node he hn hx ih := eval_node (hab.get?_of_some he) hn hx ih
  nil := rfl
  cons ihe ihes := evalEach_cons_eq_some.mpr ⟨_, _, _, ihe, ihes, rfl⟩

/-- An evaluation comes out the same in every later arena. -/
theorem GrowsTo.eval_eq_some {b : Arena} (hab : a.GrowsTo b) {e : ExprId} {v : V}
    {s t : Session V W} (h : a.eval M e s = some (v, t)) : b.eval M e s = some (v, t) :=
  (growsToCases hab).of_eval h

theorem GrowsTo.evalEach_eq_some {b : Arena} (hab : a.GrowsTo b) {es : List ExprId} {vs : List V}
    {s t : Session V W} (h : a.evalEach M es s = some (vs, t)) :
    b.evalEach M es s = some (vs, t) :=
  (growsToCases hab).of_evalEach h

end Arena

end StackIR
