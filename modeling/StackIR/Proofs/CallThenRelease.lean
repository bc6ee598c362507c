import StackIR.Proofs.Meaning
import StackIR.Proofs.Built

/-!
# A borrowing call is a call and then the releases

In every arena that is built, whatever the borrowed arguments are and whatever shared nodes have
their values already, a borrowing call can be evaluated, and it does what evaluating the arguments
from the left, performing the call once and giving up the borrowed values from the left does
(`Arena.callsThenReleases_borrowCall`). That it can be evaluated comes from the order of the nodes
(`Arena.OperandsPrecede.exists_eval`): operands stand before their node. What it does is
`Arena.eval_borrowCall`; the trace of it is the trace of the arguments followed by the call and the
releases, so no release comes before the call or before the value it gives up.
-/

namespace StackIR

universe u

variable {V W : Type u}

/-! ## Traces -/

namespace Machine

variable {M : Machine V W}

theorem trace_perform (M : Machine V W) (x : Effect V) (r : Run V W) :
    (M.perform x r).2.trace = r.trace ++ [x] := rfl

theorem trace_releaseEach (M : Machine V W) (vs : List V) (r : Run V W) :
    (M.releaseEach vs r).trace = r.trace ++ vs.map .release := by
  induction vs generalizing r with
  | nil => simp [releaseEach]
  | cons v vs ih =>
      have hstep : M.releaseEach (v :: vs) r =
          M.releaseEach vs (M.perform (.release v) r).2 := rfl
      rw [hstep, ih, trace_perform, List.append_assoc, List.singleton_append, List.map_cons]

theorem trace_isPrefix_act (M : Machine V W) (n : Node) (vs : List V) (r : Run V W) :
    r.trace <+: (M.act n vs r).2.trace := by
  unfold act
  split <;> first
    | exact List.prefix_refl _
    | exact List.prefix_append _ _

/-- From the values of the arguments and the run `r`: the call is performed once, and then the
borrowed values are given up from the left. -/
structure CallsThenReleases (M : Machine V W) (name : String) (mask : BitVec 32) (isAsync : Bool)
    (vs : List V) (r : Run V W) (v : V) (r' : Run V W) : Prop where
  value_eq : v = (M.perform (.call name isAsync vs) r).1
  run_eq : r' = M.releaseEach (borrowedFrom mask 0 vs) (M.perform (.call name isAsync vs) r).2
  trace_eq : r'.trace =
    r.trace ++ .call name isAsync vs :: (borrowedFrom mask 0 vs).map .release

theorem callsThenReleases_borrowingCall (M : Machine V W) (name : String) (mask : BitVec 32)
    (isAsync : Bool) (vs : List V) (r : Run V W) :
    M.CallsThenReleases name mask isAsync vs r (M.borrowingCall name mask isAsync vs r).1
      (M.borrowingCall name mask isAsync vs r).2 where
  value_eq := rfl
  run_eq := rfl
  trace_eq := by
    rw [borrowingCall, trace_releaseEach, trace_perform, List.append_assoc,
      List.singleton_append]

end Machine

namespace Arena

variable {M : Machine V W} {a : Arena}

private theorem traceCases : EvalCases M a (fun _ s _ t => s.run.trace <+: t.run.trace)
    (fun _ s _ t => s.run.trace <+: t.run.trace) where
  known _ _ := List.prefix_refl _
  shared _ _ _ ih := ih
  node _ _ _ ih := ih.trans (M.trace_isPrefix_act _ _ _)
  nil := List.prefix_refl _
  cons ihe ihes := ihe.trans ihes

/-- An evaluation only adds to the trace. -/
theorem trace_isPrefix_evalEach {es : List ExprId} {vs : List V} {s t : Session V W}
    (h : a.evalEach M es s = some (vs, t)) : s.run.trace <+: t.run.trace :=
  traceCases.of_evalEach h

/-! ## Every node can be evaluated -/

theorem exists_evalEach {es : List ExprId}
    (h : ∀ e ∈ es, ∀ s : Session V W, ∃ v t, a.eval M e s = some (v, t)) (s : Session V W) :
    ∃ vs t, a.evalEach M es s = some (vs, t) := by
  induction es generalizing s with
  | nil => exact ⟨[], s, evalEach_nil s⟩
  | cons e es ih =>
      obtain ⟨v, s₁, hv⟩ := h e List.mem_cons_self s
      obtain ⟨vs, t, hvs⟩ := ih (fun x hx => h x (List.mem_cons_of_mem _ hx)) s₁
      exact ⟨v :: vs, t, evalEach_cons_eq_some.mpr ⟨v, s₁, vs, hv, hvs, rfl⟩⟩

theorem OperandsPrecede.exists_eval (ha : a.OperandsPrecede) (M : Machine V W) {e : ExprId}
    (he : e < a.size) (s : Session V W) : ∃ v t, a.eval M e s = some (v, t) := by
  induction e using Nat.strong_induction_on generalizing s with
  | _ e ih =>
      obtain ⟨n, hn⟩ := exists_get?_of_lt he
      have hops : ∀ x ∈ n.operands, ∀ s : Session V W, ∃ v t, a.eval M x s = some (v, t) :=
        fun x hx => ih x (ha e n hn x hx) (Nat.lt_trans (ha e n hn x hx) he)
      cases hshared : n.isShared with
      | false =>
          obtain ⟨vs, t, hvs⟩ := exists_evalEach hops s
          exact ⟨_, _, eval_node hn hshared (ha e n hn) hvs⟩
      | true =>
          cases n with
          | shared x =>
              cases hs : s.known e with
              | some v => exact ⟨v, s, eval_known hn hs⟩
              | none =>
                  obtain ⟨v, t, hv⟩ := hops x List.mem_cons_self s
                  exact ⟨v, _, eval_shared hn hs (ha e _ hn x List.mem_cons_self) hv⟩
          | _ => simp [Node.isShared] at hshared

/-! ## The borrowing call -/

/-- A borrowing call over nodes of an arena that is built evaluates, in every later arena and
whatever is known of the nodes made before, to what the plain call over the same arguments does
followed by the releases of the borrowed values. Besides what the arguments teach, it teaches only
values of the nodes made for it. -/
theorem callsThenReleases_borrowCall {a b : Arena} (ha : ({} : Arena).BuildsTo a)
    (M : Machine V W) (name : String) (mask : BitVec 32) (isAsync : Bool) {args : List ExprId}
    (hargs : ∀ e ∈ args, e < a.size) (hb : (a.borrowCall name mask isAsync args).2.GrowsTo b)
    {s : Session V W} (hs : s.Ignores a.size (a.borrowCall name mask isAsync args).2.size) :
    ∃ vs t v u, a.evalEach M args s = some (vs, t) ∧
      b.eval M (a.borrowCall name mask isAsync args).1 s = some (v, u) ∧
      M.CallsThenReleases name mask isAsync vs t.run v u.run ∧
      s.run.trace <+: t.run.trace ∧
      ∀ x : Nat, x < a.size ∨ (a.borrowCall name mask isAsync args).2.size ≤ x →
        u.known x = t.known x := by
  have hprecede := operandsPrecede_empty.buildsTo ha
  obtain ⟨vs, t, hvs⟩ := exists_evalEach (M := M)
    (fun e he s => hprecede.exists_eval M (hargs e he) s) s
  obtain ⟨u, hu, hsame⟩ := eval_borrowCall hargs hb hvs hs
  have hrun : u.run = (M.borrowingCall name mask isAsync vs t.run).2 := hsame.run_eq
  refine ⟨vs, t, _, u, hvs, hu, ?_, trace_isPrefix_evalEach hvs, hsame.known_eq⟩
  rw [hrun]
  exact M.callsThenReleases_borrowingCall name mask isAsync vs t.run

/-- A literal, a call over it and a shared node over the call. -/
def sharedCall : Arena :=
  ⟨#[.literal (.int 7), .runtimeCall "g" false [0], .shared 1]⟩

theorem buildsTo_sharedCall : ({} : Arena).BuildsTo sharedCall := by
  have hcall : ({} : Arena).BuildsTo ⟨#[.literal (.int 7), .runtimeCall "g" false [0]]⟩ :=
    (buildsTo_add (n := .literal (.int 7)) rfl (by decide)).trans
      (buildsTo_add (a := ⟨#[.literal (.int 7)]⟩) (n := .runtimeCall "g" false [0]) rfl (by decide))
  exact hcall.tail (Step.share 1 (by decide))

/-- A session that has the value of the shared node already. -/
def sharedIsKnown : Session Nat Nat :=
  Session.learn ⟨⟨1, []⟩, fun _ => none⟩ 2 50

/-- The shared node is borrowed twice and its value read twice; the call under it, handed over by
itself too, is performed for that argument alone. Each release follows the call. -/
theorem callsThenReleases_sharedCall :
    ({} : Arena).BuildsTo sharedCall ∧ (∀ e ∈ [2, 0, 1, 2], e < sharedCall.size) ∧
      sharedIsKnown.Ignores sharedCall.size
        (sharedCall.borrowCall "f" 0x8000000D true [2, 0, 1, 2]).2.size ∧
      ∃ u, (sharedCall.borrowCall "f" 0x8000000D true [2, 0, 1, 2]).2.eval Script.numbering
          (sharedCall.borrowCall "f" 0x8000000D true [2, 0, 1, 2]).1 sharedIsKnown = some (2, u) ∧
        u.run.trace = [.call "g" false [0], .call "f" true [50, 0, 1, 50], .release 50,
          .release 1, .release 50] := by
  have hargs : ∀ e ∈ [2, 0, 1, 2], e < sharedCall.size := by decide
  have hignores : sharedIsKnown.Ignores sharedCall.size
      (sharedCall.borrowCall "f" 0x8000000D true [2, 0, 1, 2]).2.size := fun x hx _ =>
    Session.learn_known_of_ne _ (Nat.ne_of_gt (show 2 < x from hx)) 50
  have hfifty : sharedIsKnown.known 2 = some 50 := Session.learn_known_self ..
  obtain ⟨vs, t, v, u, hvs, hu, hcall, -, -⟩ := callsThenReleases_borrowCall buildsTo_sharedCall
    Script.numbering "f" 0x8000000D true hargs (GrowsTo.refl _) hignores
  -- The arguments read the shared node, push the literal, perform `g` and read it again.
  have hliteral : ∀ s, sharedCall.eval Script.numbering 0 s = some (0, s) := fun s =>
    eval_node (n := .literal (.int 7)) rfl rfl (by decide) (evalEach_nil s)
  have hknown : ∀ r, sharedCall.eval Script.numbering 2 { sharedIsKnown with run := r } =
      some (50, { sharedIsKnown with run := r }) := fun r =>
    eval_known (x := 1) rfl hfifty
  have hplain : sharedCall.eval Script.numbering 1 sharedIsKnown =
      some (1, { sharedIsKnown with run := ⟨2, [.call "g" false [0]]⟩ }) :=
    eval_unary (n := .runtimeCall "g" false [0]) rfl rfl rfl (by decide) (hliteral _)
  have hvs' : sharedCall.evalEach Script.numbering [2, 0, 1, 2] sharedIsKnown =
      some ([50, 0, 1, 50], { sharedIsKnown with run := ⟨2, [.call "g" false [0]]⟩ }) :=
    evalEach_cons_eq_some.mpr ⟨_, _, _, hknown _, evalEach_cons_eq_some.mpr ⟨_, _, _, hliteral _,
      evalEach_cons_eq_some.mpr ⟨_, _, _, hplain, evalEach_cons_eq_some.mpr ⟨_, _, _, hknown _,
        evalEach_nil _, rfl⟩, rfl⟩, rfl⟩, rfl⟩
  obtain ⟨rfl, rfl⟩ := Prod.mk.injEq .. |>.mp (Option.some.inj (hvs.symm.trans hvs'))
  obtain rfl : v = 2 := hcall.value_eq
  exact ⟨buildsTo_sharedCall, hargs, hignores, u, hu, hcall.trace_eq⟩

end Arena

end StackIR
