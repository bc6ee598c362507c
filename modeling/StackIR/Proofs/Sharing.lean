import Mathlib.Data.List.Chain
import StackIR.Proofs.Built

/-!
# Sharing is never redundant

What a shared node is over is neither a literal nor shared itself, whatever calls made the arena
(`Arena.Call`): a call that shares an expression looks at the node first, and nodes never change.
So sharing what is shared already does nothing, and no shared node is reached through another
(`Arena.sharesPlainly_of_called`).

The calls restrict their operands as little as the arena does. Only an expression that is to be
shared has to be there when its turn comes, as the node is looked up.
-/

namespace StackIR

open Relation

namespace Procedure

/-- Releasing cells, whichever they are, releases some of them before it ends or stops. -/
theorem exists_forM_releaseCell_run (cs : List Cell) :
    ∀ p : Procedure, ∃ ds : List Cell,
      ((cs.forM releaseCell).run p).2 = ds.foldl release p := by
  induction cs with
  | nil => exact fun p => ⟨[], rfl⟩
  | cons c cs ih =>
      intro p
      have hrun := releaseCell_run c p
      rw [List.forM_eq_forM, List.forM_cons, ExceptT.run_bind]
      simp only [bind, StateT.bind]
      rw [hrun]
      cases howned : c.isOwned with
      | false => exact ⟨[], rfl⟩
      | true =>
          cases hmanaged : c.isManaged with
          | true =>
              obtain ⟨ds, hds⟩ := ih (p.release c)
              exact ⟨c :: ds, hds⟩
          | false => exact ih p

theorem exists_releaseAll_run (p : Procedure) :
    ∃ ds : List Cell, (releaseAll.run p).2 = ds.foldl release p := by
  show ∃ ds, ((if p.isRoot then (pure () : Releasing Unit)
    else (p.locals.toList ++ p.args.toList).forM releaseCell).run p).2 = List.foldl release p ds
  cases p.isRoot with
  | true => exact ⟨[], rfl⟩
  | false => exact exists_forM_releaseCell_run _ p

end Procedure

namespace Arena

/-! ## Calls -/

/-- One call that makes expressions. Cells are released in a procedure whose arena it is. -/
inductive Call (a : Arena) : Arena → Prop where
  | node (n : Node) (hn : n.isShared = false) : Call a (a.add n).2
  | share (e : ExprId) (he : e < a.size) : Call a (a.share e).2
  /-- When a borrowed argument is to be shared, those before it have been. -/
  | borrowCall (name : String) (mask : BitVec 32) (isAsync : Bool) (args : List ExprId)
      (hargs : ∀ i e, args[i]? = some e → mask.getLsbD i = true →
        e < (a.borrow mask 0 (args.take i)).2.size) :
      Call a (a.borrowCall name mask isAsync args).2
  | load (c : Cell) : Call a (c.load a).2
  | storeSlot (c : Cell) (value : ExprId) : Call a (c.storeSlot value a).2
  | assign (c : Cell) (value : ExprId) : Call a (c.assign value a).2
  | releaseCell (p : Procedure) (hp : p.arena = a) (c : Cell) :
      Call a ((Procedure.releaseCell c).run p).2.arena
  | releaseAll (p : Procedure) (hp : p.arena = a) : Call a (Procedure.releaseAll.run p).2.arena

/-- The arena is made by calls from an empty one. -/
def Called (a : Arena) : Prop :=
  ReflTransGen Call {} a

/-! ## What the calls keep -/

namespace SharesOnce

variable {a : Arena}

/-- A node that is not shared is no matter, whatever its operands. -/
theorem addOther {n : Node} (h : a.SharesOnce) (hn : n.isShared = false) :
    (a.add n).2.SharesOnce := by
  refine h.add fun x hx => ?_
  rw [hx] at hn
  cases hn

theorem borrow (mask : BitVec 32) {es : List ExprId} : ∀ {a : Arena} {i : Nat}, a.SharesOnce →
    (∀ j e, es[j]? = some e → mask.getLsbD (i + j) = true →
      e < (a.borrow mask i (es.take j)).2.size) →
    (a.borrow mask i es).2.SharesOnce := by
  induction es with
  | nil => exact fun h _ => h
  | cons e es ih =>
      intro a i h hes
      have hsucc : ∀ j, i + (j + 1) = i + 1 + j := fun j => by omega
      cases hbit : mask.getLsbD i with
      | false =>
          rw [borrow_cons_of_not_bit hbit]
          refine ih h fun j x hx hj => ?_
          have hlt := hes (j + 1) x hx (by rwa [hsucc])
          rwa [List.take_succ_cons, borrow_cons_of_not_bit hbit] at hlt
      | true =>
          rw [borrow_cons_of_bit hbit]
          have he : e < a.size := hes 0 e rfl hbit
          refine ih ((h.step (.share e he)).addOther rfl) fun j x hx hj => ?_
          have hlt := hes (j + 1) x hx (by rwa [hsucc])
          rwa [List.take_succ_cons, borrow_cons_of_bit hbit] at hlt

theorem borrowCall {name : String} {mask : BitVec 32} {isAsync : Bool} {args : List ExprId}
    (h : a.SharesOnce) (hargs : ∀ i e, args[i]? = some e → mask.getLsbD i = true →
      e < (a.borrow mask 0 (args.take i)).2.size) :
    (a.borrowCall name mask isAsync args).2.SharesOnce := by
  have hborrowed := h.borrow mask (i := 0) fun j e he hj =>
    hargs j e he (by rwa [Nat.zero_add] at hj)
  have hcalled := hborrowed.addOther (n := .runtimeCall name isAsync (a.borrow mask 0 args).1.args)
    rfl
  cases hempty : (a.borrow mask 0 args).1.releases.isEmpty with
  | true =>
      rw [borrowCall_of_isEmpty hempty]
      exact hcalled
  | false =>
      have hshared := hcalled.step (.share _ (appends_add _ _).lt_size)
      rw [share_call] at hshared
      rw [borrowCall_of_not_isEmpty hempty]
      exact hshared.addOther rfl

theorem load (c : Cell) (h : a.SharesOnce) : (c.load a).2.SharesOnce := by
  have hslot : (a.add (.cell c)).2.SharesOnce := h.addOther rfl
  unfold Cell.load Cell.slot
  cases c.isBoxed <;> cases c.refCounted
  · exact hslot
  · exact hslot.addOther rfl
  · exact hslot.addOther rfl
  · exact (hslot.addOther rfl).addOther rfl

theorem assign (c : Cell) (value : ExprId) (h : a.SharesOnce) :
    (c.assign value a).2.SharesOnce := by
  have hslot : (a.add (.cell c)).2.SharesOnce := h.addOther rfl
  unfold Cell.assign
  split
  · exact hslot.addOther rfl
  · exact hslot.addOther rfl

theorem foldl_release (ds : List Cell) : ∀ {p : Procedure}, p.arena.SharesOnce →
    (ds.foldl Procedure.release p).arena.SharesOnce := by
  induction ds with
  | nil => exact fun h => h
  | cons d ds ih =>
      intro p h
      have hslot : (p.arena.add (.cell d)).2.SharesOnce := h.addOther rfl
      exact ih (p := p.release d) (hslot.addOther rfl)

theorem call {b : Arena} (h : a.SharesOnce) (hcall : a.Call b) : b.SharesOnce := by
  cases hcall with
  | node n hn => exact h.addOther hn
  | share e he => exact h.step (.share e he)
  | borrowCall name mask isAsync args hargs => exact h.borrowCall hargs
  | load c => exact h.load c
  | storeSlot c value =>
      have hslot : (a.add (.cell c)).2.SharesOnce := h.addOther rfl
      exact hslot.addOther rfl
  | assign c value => exact h.assign c value
  | releaseCell p hp c =>
      subst hp
      rw [Procedure.releaseCell_run]
      split
      · dsimp only
        split
        · exact foldl_release [c] h
        · exact h
      · exact h
  | releaseAll p hp =>
      subst hp
      obtain ⟨ds, hds⟩ := p.exists_releaseAll_run
      rw [hds]
      exact foldl_release ds h

end SharesOnce

theorem sharesOnce_empty : ({} : Arena).SharesOnce := by
  intro e x he
  simp [get?] at he

theorem Called.sharesOnce {a : Arena} (h : a.Called) : a.SharesOnce := by
  induction h with
  | refl => exact sharesOnce_empty
  | tail _ hcall ih => exact ih.call hcall

/-! ## Sharing again -/

variable {a : Arena}

theorem isReusable_share (a : Arena) (e : ExprId) :
    (a.share e).2.isReusable (a.share e).1 = true := by
  cases hreuse : a.isReusable e with
  | true => rw [share_of_reusable hreuse, hreuse]
  | false =>
      rw [share_of_not_reusable hreuse]
      simp [isReusable, Node.isShared]

theorem SharesOnce.exists_operand (h : a.SharesOnce) {e x : ExprId}
    (he : a.get? e = some (.shared x)) :
    ∃ n, a.get? x = some n ∧ n.isLiteral = false ∧ n.isShared = false := by
  obtain ⟨hlt, hreuse⟩ := h e x he
  obtain ⟨n, hn⟩ := exists_get?_of_lt hlt
  simp only [isReusable, hn, Option.any_some, Bool.or_eq_false_iff] at hreuse
  exact ⟨n, hn, hreuse⟩

/-- A list of shared nodes, each over the next one, has no next one. -/
theorem SharesOnce.length_le_one (h : a.SharesOnce) {es : List ExprId}
    (hshared : ∀ e ∈ es, a.isShared e = true)
    (hchain : es.IsChain fun e x => a.get? e = some (.shared x)) : es.length ≤ 1 := by
  match es, hchain with
  | [], _ => exact Nat.zero_le 1
  | [e], _ => exact Nat.le_refl 1
  | e :: x :: es, hchain =>
      obtain ⟨n, hn, -, hplain⟩ := h.exists_operand (List.isChain_cons_cons.mp hchain).1
      have hx := hshared x (by simp)
      rw [isShared_eq hn, hplain] at hx
      cases hx

/-- No sharing is redundant. -/
structure SharesPlainly (a : Arena) : Prop where
  operand : ∀ {e x : ExprId}, a.get? e = some (.shared x) →
    ∃ n, a.get? x = some n ∧ n.isLiteral = false ∧ n.isShared = false
  /-- Sharing again returns the same node and adds none. -/
  share_share : ∀ e, (a.share e).2.share (a.share e).1 = a.share e
  chain_length : ∀ {es : List ExprId}, es ≠ [] → (∀ e ∈ es, a.isShared e = true) →
    (es.IsChain fun e x => a.get? e = some (.shared x)) → es.length = 1
  share_unchanged : ∀ e x, x < a.size → (a.share e).2.get? x = a.get? x

/-- Whatever calls make an arena, no sharing in it is redundant. -/
theorem sharesPlainly_of_called (h : a.Called) : a.SharesPlainly := by
  have honce := h.sharesOnce
  constructor
  case operand => exact honce.exists_operand
  case share_share => exact fun e => share_of_reusable (isReusable_share a e)
  case chain_length =>
    intro es hne hshared hchain
    have hpos := List.length_pos_iff.mpr hne
    have hle := honce.length_le_one hshared hchain
    omega
  case share_unchanged => exact fun e x hx => (growsTo_share a e).get?_eq hx

/-- A literal, a shared value and the result of a call that borrowed both are borrowed by a further
call. -/
def borrowedTwice : Arena :=
  ⟨#[.literal (.int 7), .jumpValue, .shared 1, .release 0, .release 2,
    .runtimeCall "f" false [0, 2], .shared 5, .sequence [6, 3, 4, 6],
    .shared 7, .release 8, .release 2, .runtimeCall "g" false [8, 2], .shared 11,
    .sequence [12, 9, 10, 12]]⟩

theorem borrowedTwice_called : borrowedTwice.Called := by
  have hempty : ReflTransGen Call {} ({} : Arena) := ReflTransGen.refl
  have hargs := ((hempty.tail (.node (.literal (.int 7)) rfl)).tail
    (.node .jumpValue rfl)).tail (.share 1 (by decide))
  have hborrows : ∀ (args : List ExprId) (a : Arena), (∀ e ∈ args, e < a.size) →
      ∀ i e, args[i]? = some e → (3 : BitVec 32).getLsbD i = true →
        e < (a.borrow 3 0 (args.take i)).2.size := fun args a hlt i e he _ =>
    Nat.lt_of_lt_of_le (hlt e (List.mem_of_getElem? he)) (growsTo_borrow 3 _ a 0).size_le
  have hfirst := hargs.tail (.borrowCall "f" 3 false [0, 2] (hborrows _ _ (by decide)))
  exact hfirst.tail (.borrowCall "g" 3 false [7, 2] (hborrows _ _ (by decide)))

/-- The shared value is handed to both calls as it is, and sharing it once more does nothing. -/
theorem sharesPlainly_borrowedTwice : borrowedTwice.Called ∧ borrowedTwice.SharesPlainly ∧
    (borrowedTwice.share 7).2.share (borrowedTwice.share 7).1 = borrowedTwice.share 7 ∧
      ∃ n, borrowedTwice.get? 7 = some n ∧ n.isShared = false := by
  have h := sharesPlainly_of_called borrowedTwice_called
  obtain ⟨n, hn, -, hplain⟩ := h.operand (e := 8) rfl
  exact ⟨borrowedTwice_called, h, h.share_share 7, n, hn, hplain⟩

end Arena

end StackIR
