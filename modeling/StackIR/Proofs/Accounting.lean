import StackIR.Proofs.Occurrences

/-!
# Retains and releases of lowered expressions

Lowering an expression makes the nodes of its operands in consecutive stretches of the arena and its
own behind them. The node of a counted load retains, a borrowing call has its releases, and nothing
else of what is made retains or releases (`isAccounted_of_lowerExpr`).
-/

namespace StackIR.Script

/-- There is an account of an expression, made in a stretch of the arena, whose node is `x`. -/
def IsAccounted (named : String → Option Cell) (c : Arena) (e : Expr) (x : ExprId)
    (lo hi : Nat) : Prop :=
  ∃ nodes : Path → PartNodes, (nodes []).value = x ∧
    Accounts named c e.at? (fun _ => False) lo hi nodes

/-- There are accounts of several expressions, made in consecutive stretches. -/
def AreAccounted (named : String → Option Cell) (c : Arena) (es : List Expr) (xs : List ExprId)
    (lo hi : Nat) : Prop :=
  xs.length = es.length ∧ ∃ (cut : Nat → Nat) (nodes : Nat → Path → PartNodes),
    cut 0 = lo ∧ cut es.length = hi ∧ ∀ (i : Nat) (e : Expr), es[i]? = some e →
      cut i ≤ cut (i + 1) ∧ xs[i]? = some (nodes i []).value ∧
        Accounts named c e.at? (fun _ => False) (cut i) (cut (i + 1)) (nodes i)

open Arena

section Accounts

variable {named : String → Option Cell} {c : Arena}

theorem areAccounted_nil (lo : Nat) : AreAccounted named c [] [] lo lo :=
  ⟨rfl, fun _ => lo, fun _ _ => ⟨0, 0, fun _ => 0⟩, rfl, rfl, by simp⟩

theorem AreAccounted.cons {e : Expr} {es : List Expr} {x : ExprId} {xs : List ExprId}
    {lo mid hi : Nat} (hlo : lo ≤ mid) (he : IsAccounted named c e x lo mid)
    (hes : AreAccounted named c es xs mid hi) :
    AreAccounted named c (e :: es) (x :: xs) lo hi := by
  obtain ⟨nodes, rfl, hnodes⟩ := he
  obtain ⟨hlength, cut, rest, rfl, rfl, hrest⟩ := hes
  refine ⟨by simp [hlength], fun i => if i = 0 then lo else cut (i - 1),
    fun i => if i = 0 then nodes else rest (i - 1), rfl, rfl, fun i e' he' => ?_⟩
  cases i with
  | zero =>
      obtain rfl : e = e' := by simpa using he'
      exact ⟨hlo, rfl, hnodes⟩
  | succ i => exact hrest i e' he'

theorem AreAccounted.of_mem {es : List Expr} {xs : List ExprId} {lo hi : Nat}
    (h : AreAccounted named c es xs lo hi) {x : ExprId} (hx : x ∈ xs) :
    x < hi ∧ c.isShared x = false := by
  obtain ⟨hlength, cut, nodes, rfl, rfl, hparts⟩ := h
  obtain ⟨i, hi, hget⟩ := List.mem_iff_getElem.mp hx
  have hi' : i < es.length := by omega
  obtain ⟨-, hvalue, haccounts⟩ := hparts i es[i] (List.getElem?_eq_getElem hi')
  obtain rfl : x = (nodes i []).value := by
    rw [← Option.some.inj ((List.getElem?_eq_getElem hi).symm.trans hvalue), hget]
  have hstands := haccounts.stands (Expr.at?_nil es[i])
  refine ⟨Nat.lt_of_lt_of_le hstands.lt ?_, hstands.notShared⟩
  exact cut_le (fun j hj => (hparts j es[j] (List.getElem?_eq_getElem hj)).1) hi' (Nat.le_refl _)

/-- An expression is accounted for if its operands are and its own nodes, which stand behind those
of the operands, are what they have to be. -/
theorem AreAccounted.root {e : Expr} {x : ExprId} {xs : List ExprId} {lo mid hi : Nat}
    (h : AreAccounted named c e.operands xs lo mid) (hmid : mid ≤ hi)
    (hroot : ∀ operand : Nat → ExprId,
      (∀ i, i < e.operands.length → xs[i]? = some (operand i)) → ∃ root : PartNodes,
        root.value = x ∧ Stands named c mid hi e root operand ∧
          ∀ k, mid ≤ k → k < hi → CountsOnly named c (some e) root k) :
    IsAccounted named c e x lo hi := by
  obtain ⟨hlength, cut, nodes, rfl, rfl, hparts⟩ := h
  have hget : ∀ i, (hi : i < e.operands.length) → e.operands[i]? = some e.operands[i] :=
    fun i hi => List.getElem?_eq_getElem hi
  obtain ⟨root, rfl, hstands, hcounts⟩ := hroot (fun i => (nodes i []).value)
    fun i hi => (hparts i _ (hget i hi)).2.1
  have hwhole : Accounts named c e.at? (fun _ => ∃ i, i < e.operands.length ∧ False) (cut 0) hi
      (underRoot root nodes) := by
    refine Accounts.of_operands (fun i hi => (hparts i _ (hget i hi)).1) hmid (fun i hi => ?_)
      (fun i π e' he' => ?_) (fun e' he' => ?_) hcounts
    · have hat : (fun π => e.at? (i :: π)) = (e.operands[i]).at? := by
        funext π
        rw [Expr.at?_cons, hget i hi, Option.bind_some]
      rw [hat]
      exact (hparts i _ (hget i hi)).2.2
    · rw [Expr.at?_cons] at he'
      obtain ⟨_, hi, -⟩ := Option.bind_eq_some_iff.mp he'
      exact (List.getElem?_eq_some_iff.mp hi).1
    · obtain rfl : e = e' := Option.some.inj he'
      exact hstands
  refine ⟨underRoot root nodes, rfl, hwhole.imp_other ?_⟩
  rintro k ⟨_, _, hfalse⟩
  exact hfalse

/-- A node that neither retains nor releases accounts for what is no load and no borrowing call. -/
theorem AreAccounted.add {e : Expr} {n : Node} {xs : List ExprId} {a : Arena} {lo : Nat}
    (h : AreAccounted named c e.operands xs lo a.size) (hc : (a.add n).2.GrowsTo c)
    (hshared : n.isShared = false) (hretain : ∀ x, n ≠ .retain x) (hrelease : ∀ x, n ≠ .release x)
    (hload : ∀ name, e ≠ .load name)
    (hcall : ∀ name mask isAsync args, e ≠ .call name mask isAsync args) :
    IsAccounted named c e a.size lo (a.add n).2.size := by
  refine h.root (growsTo_add a n).size_le fun operand _ => ?_
  refine ⟨{ value := a.size }, rfl, ?_, fun k hlo hhi x => ?_⟩
  · refine ⟨Nat.le_refl _, (appends_add a n).lt_size, ?_, fun he => ?_, fun he => ?_⟩
    · rw [isShared_eq hc.get?_size, hshared]
    · cases e with
      | load name => exact absurd rfl (hload name)
      | _ => exact he.elim
    · exact absurd he (hcall _ _ _ _)
  · have hquiet := countsNothing_add hc hretain hrelease k hlo hhi x
    exact ⟨fun hk => absurd hk hquiet.1, fun hk => absurd hk hquiet.2⟩

theorem isAccounted_load {name : String} {d : Cell} {a : Arena} (hd : named name = some d)
    (hc : (d.load a).2.GrowsTo c) :
    IsAccounted named c (.load name) (d.load a).1 a.size (d.load a).2.size := by
  obtain ⟨hquiet, hshared, hretain⟩ := Cell.load_counts hc
  have happends := d.appends_load a
  refine (areAccounted_nil a.size).root happends.growsTo.size_le fun operand _ => ?_
  refine ⟨{ value := (d.load a).1 }, rfl, ?_, fun k hlo hhi x => ?_⟩
  · refine ⟨happends.size_le, happends.lt_size, hshared, ?_, fun he => Expr.noConfusion he⟩
    rintro ⟨d', hd', hcounted⟩
    obtain rfl := Option.some.inj (hd.symm.trans hd')
    rwa [if_pos hcounted] at hretain
  · rcases Nat.lt_or_ge k (d.load a).1 with hlt | hge
    · have hk := hquiet k hlo hlt x
      exact ⟨fun h => absurd h hk.1, fun h => absurd h hk.2⟩
    · rw [← happends.succ_eq] at hhi
      obtain rfl : k = (d.load a).1 := Nat.le_antisymm (Nat.le_of_lt_succ hhi) hge
      cases hcounted : d.refCounted with
      | true =>
          rw [if_pos hcounted] at hretain
          obtain ⟨y, hy⟩ := hretain
          rw [hy]
          exact ⟨fun _ => ⟨_, rfl, ⟨d, hd, hcounted⟩, rfl⟩, by simp⟩
      | false =>
          rw [hcounted, if_neg Bool.false_ne_true] at hretain
          exact ⟨fun h => absurd h (hretain x).1, fun h => absurd h (hretain x).2⟩

/-- A borrowing call is accounted for: it makes the releases due and hands the arguments on. -/
theorem AreAccounted.borrowCall {name : String} {mask : BitVec 32} {isAsync : Bool}
    {args : List Expr} {ids : List ExprId} {b : Arena} {lo : Nat}
    (h : AreAccounted named c args ids lo b.size)
    (hc : (b.borrowCall name mask isAsync ids).2.GrowsTo c) :
    IsAccounted named c (.call name mask isAsync args) (b.borrowCall name mask isAsync ids).1 lo
      (b.borrowCall name mask isAsync ids).2.size := by
  have happends := appends_borrowCall b name mask isAsync ids
  have hborrow := growsTo_borrow mask ids b 0
  obtain ⟨hcall, hlt, hshared, hyields, hquiet⟩ := exists_borrowCall hc
  have hbc : b.GrowsTo c := happends.growsTo.trans hc
  have hrc := ((growsTo_add _ _).trans (called_growsTo_borrowCall b name mask isAsync ids)).trans hc
  obtain ⟨release, hreleases⟩ := exists_releases_borrow mask (fun x hx =>
    ⟨(h.of_mem hx).1, by rw [← hbc.isShared_eq (h.of_mem hx).1]; exact (h.of_mem hx).2⟩) hrc
  have hids : ids.length = args.length := h.1
  refine h.root (Nat.le_trans hborrow.size_le (Nat.le_of_lt hlt)) fun operand hoperand => ?_
  refine ⟨⟨_, (b.borrow mask 0 ids).2.size, release⟩, rfl, ?_, fun k hlo hhi x => ?_⟩
  · refine ⟨happends.size_le, happends.lt_size, hshared, fun he => he.elim, fun he => ?_⟩
    obtain ⟨rfl, rfl, rfl, rfl⟩ := Expr.call.inj he
    refine ⟨hborrow.size_le, hlt, hyields, _, hcall, hreleases.length_eq.trans hids, fun i hi => ?_⟩
    obtain ⟨z, hz, hborrowed⟩ := hreleases.arg i (operand i) (hoperand i hi)
    rw [Nat.zero_add] at hborrowed
    exact ⟨z, hz, hborrowed⟩
  · rcases Nat.lt_or_ge k (b.borrow mask 0 ids).2.size with hk | hk
    · obtain ⟨hretain, hrelease⟩ := hreleases.counts k x hlo hk
      refine ⟨fun h => absurd h hretain, fun h => ?_⟩
      obtain ⟨i, hi, hbit, rfl⟩ := hrelease h
      rw [Nat.zero_add] at hbit
      exact ⟨_, i, rfl, ⟨hids ▸ hi, hbit⟩, rfl⟩
    · have hk := hquiet k hk hhi x
      exact ⟨fun h => absurd h hk.1, fun h => absurd h hk.2⟩

end Accounts

/-! ## Lowered expressions -/

private theorem accountsCases (cells : CellTable) :
    LoweringCases cells
      (fun e a x b => ∀ c, b.GrowsTo c → IsAccounted (fun name => cells[name]?) c e x a.size b.size)
      (fun es a xs b => ∀ c, b.GrowsTo c →
        AreAccounted (fun name => cells[name]?) c es xs a.size b.size) where
  leaf {e n a} he c hc := by
    cases e with
    | num value | bool value | pointer label info | jumpValue =>
        obtain rfl := Option.some.inj he
        exact (areAccounted_nil a.size).add hc rfl (by simp) (by simp) (by simp) (by simp)
    | _ => cases he
  load hd _ hc := isAccounted_load hd hc
  call _ ih c hc := (ih c ((appends_borrowCall _ _ _ _ _).growsTo.trans hc)).borrowCall hc
  procCall _ ih c hc :=
    (ih c ((growsTo_add _ _).trans hc)).add hc rfl (by simp) (by simp) (by simp) (by simp)
  field {e index a b x} he ih c hc := by
    have hx := (ih c ((growsTo_add _ _).trans hc))
    exact ((areAccounted_nil b.size).cons (appends_lowerExpr he).growsTo.size_le hx).add hc rfl
      (by simp) (by simp) (by simp) (by simp)
  sequence _ ih c hc :=
    (ih c ((growsTo_add _ _).trans hc)).add hc rfl (by simp) (by simp) (by simp) (by simp)
  nil {a} _ _ := areAccounted_nil a.size
  cons he hes ih ihs c hc :=
    (ihs c hc).cons (appends_lowerExpr he).growsTo.size_le
      (ih c ((appends_lowerExprs hes).growsTo.trans hc))

/-- Every lowered expression is accounted for. -/
theorem isAccounted_of_lowerExpr {cells : CellTable} {e : Expr} {a b c : Arena} {x : ExprId}
    (h : lowerExpr cells e a = .ok (x, b)) (hc : b.GrowsTo c) :
    IsAccounted (fun name => cells[name]?) c e x a.size b.size :=
  (accountsCases cells).of_lowerExpr h c hc

end StackIR.Script
