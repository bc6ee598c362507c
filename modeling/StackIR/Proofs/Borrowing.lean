import StackIR.Proofs.Evaluation

/-!
# What a borrowing call means

A call that only borrows some of its arguments evaluates like the plain call followed by a release
of each borrowed value (`Arena.eval_borrowCall`). The node of the call stands twice in the sequence
and each borrowed argument stands both under the call and under its release; sharing makes both
evaluate once. The lemmas follow an argument (`eval_share`), then the arguments from the left
(`evalEach_borrow`), then the call.

New nodes are evaluated in a session that knows no value of theirs yet (`Session.Ignores`).
-/

namespace StackIR

universe u

/-- The values at the positions of a call that are set in `mask`, in ascending order. The first
value is at position `i`; no position past the mask is set. -/
def borrowedFrom {V : Type u} (mask : BitVec 32) (i : Nat) (vs : List V) : List V :=
  ((vs.zipIdx i).filter fun (_, j) => mask.getLsbD j).map (·.1)

theorem borrowedFrom_cons_of_bit {V : Type u} {mask : BitVec 32} {i : Nat} {v : V} {vs : List V}
    (h : mask.getLsbD i = true) :
    borrowedFrom mask i (v :: vs) = v :: borrowedFrom mask (i + 1) vs := by
  simp [borrowedFrom, h]

theorem borrowedFrom_cons_of_not_bit {V : Type u} {mask : BitVec 32} {i : Nat} {v : V}
    {vs : List V} (h : mask.getLsbD i = false) :
    borrowedFrom mask i (v :: vs) = borrowedFrom mask (i + 1) vs := by
  simp [borrowedFrom, h]

variable {V W : Type u}

/-- Nothing is known yet of the nodes between two positions. -/
def Session.Ignores (s : Session V W) (lo hi : Nat) : Prop :=
  ∀ x : Nat, lo ≤ x → x < hi → s.known x = none

/-- The session after an evaluation that could learn only values of nodes from `lo` up to `hi`: it
has done the same as `t`, and of all other nodes it knows what `t` does. -/
structure Session.SameOutside (t : Session V W) (lo hi : Nat) (t' : Session V W) : Prop where
  run_eq : t'.run = t.run
  known_eq : ∀ x : Nat, x < lo ∨ hi ≤ x → t'.known x = t.known x

/-- Performs a call and then gives up the values it only borrowed. -/
def Machine.borrowingCall (M : Machine V W) (name : String) (mask : BitVec 32) (isAsync : Bool)
    (vs : List V) (r : Run V W) : V × Run V W :=
  let (v, r) := M.perform (.call name isAsync vs) r
  (v, M.releaseEach (borrowedFrom mask 0 vs) r)

namespace Arena

variable {M : Machine V W} {a : Arena}

/-- Sharing an expression does not change what it does when it is evaluated first, and evaluating
it again afterwards yields the same value and does nothing. -/
theorem eval_share {e : ExprId} (he : e < a.size) {b : Arena} (hb : (a.share e).2.GrowsTo b)
    {v : V} {s t : Session V W} (h : a.eval M e s = some (v, t))
    (hs : s.Ignores a.size (a.share e).2.size) :
    ∃ t', b.eval M (a.share e).1 s = some (v, t') ∧
      t.SameOutside a.size (a.share e).2.size t' ∧
      ∀ u, t'.Keeps u → b.eval M (a.share e).1 u = some (v, u) := by
  have hab : a.GrowsTo b := (growsTo_share a e).trans hb
  cases hreuse : a.isReusable e with
  | true =>
      rw [share_of_reusable hreuse] at hb hs ⊢
      obtain ⟨n, hn⟩ := exists_get?_of_lt he
      refine ⟨t, hab.eval_eq_some h, ⟨rfl, fun _ _ => rfl⟩, fun u hu => ?_⟩
      simp only [isReusable, hn, Option.any_some, Bool.or_eq_true] at hreuse
      cases n with
      | shared x => exact eval_known (hab.get?_of_some hn) (hu e v (known_of_eval hn h))
      | literal l =>
          have hlit : ∀ s : Session V W, a.eval M e s = some (M.literal l, s) := fun s =>
            eval_node hn rfl (by simp [Node.operands]) (evalEach_nil s)
          rw [hlit s] at h
          obtain ⟨rfl, rfl⟩ := Prod.mk.injEq .. |>.mp (Option.some.inj h)
          exact hab.eval_eq_some (hlit u)
      | pointer label info =>
          have hlit : ∀ s : Session V W, a.eval M e s = some (M.pointer label info, s) := fun s =>
            eval_node hn rfl (by simp [Node.operands]) (evalEach_nil s)
          rw [hlit s] at h
          obtain ⟨rfl, rfl⟩ := Prod.mk.injEq .. |>.mp (Option.some.inj h)
          exact hab.eval_eq_some (hlit u)
      | _ => simp [Node.isLiteral, Node.isShared] at hreuse
  | false =>
      rw [share_of_not_reusable hreuse] at hb hs ⊢
      have hnew : b.get? a.size = some (.shared e) := hb.get?_of_some (get?_add_self ..)
      have hunknown : s.known a.size = none :=
        hs a.size (Nat.le_refl _) (by rw [size_add]; exact Nat.lt_succ_self _)
      refine ⟨t.learn a.size v, eval_shared hnew hunknown he (hab.eval_eq_some h), ⟨rfl, ?_⟩, ?_⟩
      · intro x hx
        refine Session.learn_known_of_ne _ ?_ v
        rintro rfl
        rw [size_add] at hx
        omega
      · exact fun u hu => eval_known hnew (hu _ _ (Session.learn_known_self ..))

theorem eval_release {e x : ExprId} (he : a.get? e = some (.release x)) (hx : x < e) {v : V}
    {s t : Session V W} (h : a.eval M x s = some (v, t)) :
    a.eval M e s = some (M.unit, { t with run := M.releaseEach [v] t.run }) :=
  eval_unary he rfl rfl hx h

/-- Arguments that are partly borrowed evaluate like the plain arguments. The releases made for
them, evaluated at any time after, give up the borrowed values from the left. -/
theorem evalEach_borrow (mask : BitVec 32) {es : List ExprId} :
    ∀ {a b : Arena} {i : Nat} {vs : List V} {s t : Session V W}, (∀ e ∈ es, e < a.size) →
      (a.borrow mask i es).2.GrowsTo b → a.evalEach M es s = some (vs, t) →
      s.Ignores a.size (a.borrow mask i es).2.size →
      ∃ t', b.evalEach M (a.borrow mask i es).1.args s = some (vs, t') ∧
        t.SameOutside a.size (a.borrow mask i es).2.size t' ∧
        ∀ u, t'.Keeps u → ∃ ws, b.evalEach M (a.borrow mask i es).1.releases u =
          some (ws, { u with run := M.releaseEach (borrowedFrom mask i vs) u.run }) := by
  induction es with
  | nil =>
      intro a b i vs s t _ _ h _
      obtain ⟨rfl, rfl⟩ := Prod.mk.injEq .. |>.mp (Option.some.inj h)
      exact ⟨s, rfl, ⟨rfl, fun _ _ => rfl⟩, fun u _ => ⟨[], rfl⟩⟩
  | cons e es ih =>
      intro a b i vs s t hlt hb h hs
      obtain ⟨v, s₁, vs, hv, hvs, rfl⟩ := evalEach_cons_eq_some.mp h
      have he : e < a.size := hlt e List.mem_cons_self
      have hes : ∀ x ∈ es, x < a.size := fun x hx => hlt x (List.mem_cons_of_mem _ hx)
      cases hbit : mask.getLsbD i with
      | false =>
          rw [borrow_cons_of_not_bit hbit] at hb hs ⊢
          rw [borrowedFrom_cons_of_not_bit hbit]
          have hab := (growsTo_borrow mask es a (i + 1)).trans hb
          have hs₁ : s₁.Ignores a.size (a.borrow mask (i + 1) es).2.size := fun x hlo hhi => by
            rw [eval_frame hv (Nat.lt_of_lt_of_le he hlo), hs x hlo hhi]
          obtain ⟨t', hargs, hsame, hrel⟩ := ih hes hb hvs hs₁
          exact ⟨t', evalEach_cons_eq_some.mpr ⟨v, s₁, vs, hab.eval_eq_some hv, hargs, rfl⟩,
            hsame, hrel⟩
      | true =>
          rw [borrow_cons_of_bit hbit] at hb hs ⊢
          rw [borrowedFrom_cons_of_bit hbit]
          dsimp only at hb hs ⊢
          have hgrow : (a.share e).2.GrowsTo ((a.share e).2.add (.release (a.share e).1)).2 :=
            growsTo_add _ _
          have hrest := growsTo_borrow mask es
            ((a.share e).2.add (.release (a.share e).1)).2 (i + 1)
          have hsize := (growsTo_share a e).size_le
          have hsize' := hrest.size_le
          rw [size_add] at hsize'
          -- The argument itself, in a session that knows nothing of its wrapper.
          obtain ⟨t₁, hv₁, hsame₁, hagain⟩ := eval_share he (hgrow.trans (hrest.trans hb)) hv
            fun x hlo hhi => hs x hlo (by omega)
          -- The arguments behind it do not see the wrapper.
          have hag : s₁.AgreesBelow a.size t₁ :=
            ⟨hsame₁.run_eq, fun x hx => hsame₁.known_eq x (Or.inl hx)⟩
          obtain ⟨t₂, hvs₂, hag₂⟩ := evalEach_local hvs hes hag
          have hagrow := (growsTo_share a e).trans hgrow
          obtain ⟨t', hargs, hsame, hrel⟩ := ih
            (fun x hx => Nat.lt_of_lt_of_le (hes x hx) hagrow.size_le) hb
            (hagrow.evalEach_eq_some hvs₂) fun x hlo hhi => by
              rw [size_add] at hlo
              have hax : a.size ≤ x := by omega
              rw [hsame₁.known_eq x (Or.inr (by omega)),
                eval_frame hv (Nat.lt_of_lt_of_le he hax), hs x hax hhi]
          refine ⟨t', evalEach_cons_eq_some.mpr ⟨v, t₁, vs, hv₁, hargs, rfl⟩, ?_, ?_⟩
          · refine ⟨hsame.run_eq.trans hag₂.run_eq, fun x hx => ?_⟩
            rw [hsame.known_eq x (by rw [size_add]; omega)]
            rcases hx with hx | hx
            · exact hag₂.known_eq x hx
            · have hax : a.size ≤ x := by omega
              have hbehind : ∀ y ∈ es, y < x := fun y hy => Nat.lt_of_lt_of_le (hes y hy) hax
              rw [evalEach_frame hvs₂ hbehind, evalEach_frame hvs hbehind,
                hsame₁.known_eq x (Or.inr (by omega))]
          · intro u hu
            have hknown : t₁.Keeps u := fun x w hx => hu x w (evalEach_keeps hargs x w hx)
            have hr := eval_release ((hrest.trans hb).get?_of_some (get?_add_self ..))
              (fst_share_lt he) (hagain u hknown)
            obtain ⟨ws, hws⟩ := hrel { u with run := M.releaseEach [v] u.run } hu
            exact ⟨M.unit :: ws, evalEach_cons_eq_some.mpr ⟨M.unit, _, ws, hr, hws, rfl⟩⟩

/-- A sequence that starts and ends with the shared call over the node before has the value of the
call, and does what the call and then the items between do. -/
theorem eval_around {b : Arena} {call : ExprId} {items : List ExprId} {v : V} {ws : List V}
    {s t u : Session V W} (hshared : b.get? (call + 1) = some (.shared call))
    (hsequence : b.get? (call + 2) = some (.sequence ((call + 1) :: items ++ [call + 1])))
    (hunknown : s.known (call + 1) = none) (hcall : b.eval M call s = some (v, t))
    (hlt : ∀ x ∈ items, x < call + 2)
    (hitems : b.evalEach M items (t.learn (call + 1) v) = some (ws, u))
    (hu : u.known (call + 1) = some v) : b.eval M (call + 2) s = some (v, u) := by
  -- The first use of the call performs it, the second reads its value again.
  have hfirst := eval_shared hshared hunknown (Nat.lt_succ_self call) hcall
  have hall := evalEach_append_eq_some (evalEach_cons_eq_some.mpr ⟨v, _, ws, hfirst, hitems, rfl⟩)
    (evalEach_cons_eq_some.mpr ⟨v, u, [], eval_known hshared hu, evalEach_nil u, rfl⟩)
  have halllt : ∀ x ∈ (call + 1) :: items ++ [call + 1], x < call + 2 := by
    intro x hx
    simp only [List.cons_append, List.mem_cons, List.mem_append, List.not_mem_nil,
      or_false] at hx
    rcases hx with rfl | hx | rfl
    · exact Nat.lt_succ_self _
    · exact hlt x hx
    · exact Nat.lt_succ_self _
  rw [eval_node hsequence rfl halllt hall]
  simp only [Session.act, Machine.act, List.getLastD_concat]

/-- A borrowing call evaluates its arguments from the left, performs the call once and then gives
up the borrowed values from the left; its value is that of the call. -/
theorem eval_borrowCall {name : String} {mask : BitVec 32} {isAsync : Bool} {args : List ExprId}
    (hlt : ∀ e ∈ args, e < a.size) {b : Arena}
    (hb : (a.borrowCall name mask isAsync args).2.GrowsTo b) {vs : List V} {s t : Session V W}
    (h : a.evalEach M args s = some (vs, t))
    (hs : s.Ignores a.size (a.borrowCall name mask isAsync args).2.size) :
    ∃ t', b.eval M (a.borrowCall name mask isAsync args).1 s =
        some ((M.borrowingCall name mask isAsync vs t.run).1, t') ∧
      Session.SameOutside { t with run := (M.borrowingCall name mask isAsync vs t.run).2 }
        a.size (a.borrowCall name mask isAsync args).2.size t' := by
  obtain ⟨hargslt, hrelslt⟩ := borrow_lt mask (i := 0) hlt
  have hcalled := (called_growsTo_borrowCall a name mask isAsync args).trans hb
  have hsize := (called_growsTo_borrowCall a name mask isAsync args).size_le
  rw [size_add] at hsize
  obtain ⟨t', hargs, hsame, hrel⟩ := evalEach_borrow mask hlt ((growsTo_add _ _).trans hcalled) h
    fun x hlo hhi => hs x hlo (by omega)
  have hcall : b.eval M (a.borrow mask 0 args).2.size s =
      some ((M.perform (.call name isAsync vs) t.run).1,
        { t' with run := (M.perform (.call name isAsync vs) t.run).2 }) := by
    rw [← hsame.run_eq]
    exact eval_node (hcalled.get?_of_some (get?_add_self ..)) rfl hargslt hargs
  cases hempty : (a.borrow mask 0 args).1.releases.isEmpty with
  | true =>
      -- There is nothing to release, so releasing what is borrowed does nothing.
      have hnone : ∀ r : Run V W, M.releaseEach (borrowedFrom mask 0 vs) r = r := fun r => by
        obtain ⟨ws, hws⟩ := hrel { t' with run := r } fun _ _ hx => hx
        rw [List.isEmpty_iff.mp hempty] at hws
        exact (congrArg (fun p => p.2.run) (Option.some.inj hws)).symm
      rw [borrowCall_of_isEmpty hempty, add_fst, size_add]
      refine ⟨_, hcall, (hnone _).symm, fun x hx => hsame.known_eq x ?_⟩
      omega
  | false =>
      rw [borrowCall_of_not_isEmpty hempty] at hb hs ⊢
      dsimp only at hb hs ⊢
      rw [add_fst, size_add, size_add]
      rw [size_add, size_add, size_add] at hs
      have hshared : b.get? ((a.borrow mask 0 args).2.size + 1) =
          some (.shared (a.borrow mask 0 args).2.size) := by
        rw [← size_add _ (.runtimeCall name isAsync (a.borrow mask 0 args).1.args)]
        exact ((growsTo_add _ _).trans hb).get?_of_some (get?_add_self ..)
      have hsequence := hb.get?_of_some (get?_add_self ..)
      rw [size_add, size_add] at hsequence
      have hac : a.size ≤ (a.borrow mask 0 args).2.size := (growsTo_borrow mask args a 0).size_le
      have hunknown : s.known ((a.borrow mask 0 args).2.size + 1) = none :=
        hs _ (by omega) (by omega)
      let t₁ := Session.learn { t' with run := (M.perform (.call name isAsync vs) t.run).2 }
        ((a.borrow mask 0 args).2.size + 1) (M.perform (.call name isAsync vs) t.run).1
      obtain ⟨ws, hws⟩ := hrel t₁ fun x w hx => by
        rw [Session.learn_known_of_ne]
        · exact hx
        · rintro rfl
          have hargsbehind : ∀ e ∈ args, e < (a.borrow mask 0 args).2.size + 1 := fun e he =>
            Nat.lt_of_lt_of_le (hlt e he) (by omega)
          rw [hsame.known_eq _ (Or.inr (Nat.le_succ _)), evalEach_frame h hargsbehind,
            hunknown] at hx
          cases hx
      refine ⟨{ t₁ with run := M.releaseEach (borrowedFrom mask 0 vs) t₁.run }, ?_, rfl, ?_⟩
      · exact eval_around hshared hsequence hunknown hcall
          (fun x hx => Nat.lt_of_lt_of_le (hrelslt x hx) (by omega)) hws
          (Session.learn_known_self ..)
      · intro x hx
        rw [size_add, size_add, size_add] at hx
        have hne : x ≠ (a.borrow mask 0 args).2.size + 1 := by omega
        exact (Session.learn_known_of_ne _ hne _).trans (hsame.known_eq x (by omega))

end Arena

end StackIR
