import Mathlib.Logic.Relation
import StackIR.Linkage
import StackIR.Procedure.Release
import StackIR.Proofs.Growth

/-!
# Procedures that are built

The steps that build a procedure (`Procedure.Step`) and what every procedure has that is built by
them (`Built.wellFormed`). An arena is built by appending nodes over earlier ones, and a shared node
comes only from sharing (`Arena.Step`); a borrowing call and the access to a cell are several such
steps. A step may use any label or name of a label, but only expressions that are there.
-/

namespace StackIR

open Relation

/-! ## Arenas -/

namespace Arena

inductive Step (a : Arena) : Arena → Prop where
  | node (n : Node) (hn : n.isShared = false) (hops : ∀ x ∈ n.operands, x < a.size) :
      Step a (a.add n).2
  | share (e : ExprId) (he : e < a.size) : Step a (a.share e).2

def BuildsTo : Arena → Arena → Prop :=
  ReflTransGen Step

theorem Step.growsTo {a b : Arena} (h : a.Step b) : a.GrowsTo b := by
  cases h with
  | node n _ _ => exact growsTo_add a n
  | share e _ => exact growsTo_share a e

theorem BuildsTo.growsTo {a b : Arena} (h : a.BuildsTo b) : a.GrowsTo b := by
  induction h with
  | refl => exact GrowsTo.refl a
  | tail _ hstep ih => exact ih.trans hstep.growsTo

theorem buildsTo_add {a : Arena} {n : Node} (hn : n.isShared = false)
    (hops : ∀ x ∈ n.operands, x < a.size) : a.BuildsTo (a.add n).2 :=
  ReflTransGen.single (Step.node n hn hops)

theorem buildsTo_add_over {a : Arena} {n m : Node} (hm : m.isShared = false)
    (hops : m.operands = [a.size]) : (a.add n).2.BuildsTo ((a.add n).2.add m).2 := by
  refine buildsTo_add hm fun x hx => ?_
  rw [hops] at hx
  rw [List.mem_singleton.mp hx]
  exact (appends_add a n).lt_size

theorem OperandsPrecede.add {a : Arena} {n : Node} (h : a.OperandsPrecede)
    (hops : ∀ x ∈ n.operands, x < a.size) : (a.add n).2.OperandsPrecede := by
  intro e m hm
  rcases get?_add_eq_some hm with hold | ⟨rfl, rfl⟩
  · exact h e m hold
  · exact hops

theorem OperandsPrecede.step {a b : Arena} (h : a.OperandsPrecede) (hstep : a.Step b) :
    b.OperandsPrecede := by
  cases hstep with
  | node n _ hops => exact h.add hops
  | share e he =>
      cases hreuse : a.isReusable e with
      | true =>
          rw [share_of_reusable hreuse]
          exact h
      | false =>
          rw [share_of_not_reusable hreuse]
          exact h.add (by simpa [Node.operands] using he)

/-- A node that is made of nodes made before keeps that order in every arena built from there. -/
theorem OperandsPrecede.buildsTo {a b : Arena} (h : a.OperandsPrecede) (hab : a.BuildsTo b) :
    b.OperandsPrecede := by
  induction hab with
  | refl => exact h
  | tail _ hstep ih => exact ih.step hstep

theorem operandsPrecede_empty : ({} : Arena).OperandsPrecede := by
  intro e n h
  simp [get?] at h

/-- What a shared node is over is neither a literal nor shared itself. -/
def SharesOnce (a : Arena) : Prop :=
  ∀ e x, a.get? e = some (.shared x) → x < a.size ∧ a.isReusable x = false

theorem SharesOnce.add {a : Arena} {n : Node} (h : SharesOnce a)
    (hn : ∀ x, n = .shared x → x < a.size ∧ a.isReusable x = false) : SharesOnce (a.add n).2 := by
  intro e x he
  have hold : x < a.size ∧ a.isReusable x = false := by
    rcases get?_add_eq_some he with he | ⟨-, rfl⟩
    · exact h e x he
    · exact hn x rfl
  refine ⟨by rw [size_add]; exact Nat.lt_succ_of_lt hold.1, ?_⟩
  rw [isReusable, get?_add_of_lt a n hold.1]
  exact hold.2

theorem SharesOnce.step {a b : Arena} (h : SharesOnce a) (hstep : a.Step b) : SharesOnce b := by
  cases hstep with
  | node n hn _ =>
      refine h.add fun x hx => ?_
      rw [hx] at hn
      cases hn
  | share e he =>
      cases hreuse : a.isReusable e with
      | true =>
          rw [share_of_reusable hreuse]
          exact h
      | false =>
          rw [share_of_not_reusable hreuse]
          refine h.add fun x hx => ?_
          obtain rfl := Node.shared.inj hx
          exact ⟨he, hreuse⟩

/-! ### What is made of several nodes -/

theorem buildsTo_borrow (mask : BitVec 32) {es : List ExprId} :
    ∀ {a : Arena} {i : Nat}, (∀ e ∈ es, e < a.size) → a.BuildsTo (a.borrow mask i es).2 := by
  induction es with
  | nil => exact fun _ => ReflTransGen.refl
  | cons e es ih =>
      intro a i hlt
      have he : e < a.size := hlt e List.mem_cons_self
      have hes : ∀ x ∈ es, x < a.size := fun x hx => hlt x (List.mem_cons_of_mem _ hx)
      cases hbit : mask.getLsbD i with
      | false =>
          rw [borrow_cons_of_not_bit hbit]
          exact ih hes
      | true =>
          rw [borrow_cons_of_bit hbit]
          have hshare : a.BuildsTo (a.share e).2 := ReflTransGen.single (Step.share e he)
          have hrelease : (a.share e).2.BuildsTo
              ((a.share e).2.add (.release (a.share e).1)).2 :=
            buildsTo_add rfl (by simpa [Node.operands] using fst_share_lt he)
          have hgrow := hshare.growsTo.trans hrelease.growsTo
          exact hshare.trans (hrelease.trans
            (ih fun x hx => Nat.lt_of_lt_of_le (hes x hx) hgrow.size_le))

theorem buildsTo_borrowCall {a : Arena} {args : List ExprId} (name : String) (mask : BitVec 32)
    (isAsync : Bool) (hlt : ∀ e ∈ args, e < a.size) :
    a.BuildsTo (a.borrowCall name mask isAsync args).2 := by
  obtain ⟨hargs, hreleases⟩ := borrow_lt mask (i := 0) hlt
  have hcall := (buildsTo_borrow mask (i := 0) hlt).trans
    (buildsTo_add (n := .runtimeCall name isAsync (a.borrow mask 0 args).1.args) rfl hargs)
  cases hempty : (a.borrow mask 0 args).1.releases.isEmpty with
  | true =>
      rw [borrowCall_of_isEmpty hempty]
      exact hcall
  | false =>
      have hshare := hcall.tail (Step.share (a.borrow mask 0 args).2.size
        (appends_add _ _).lt_size)
      rw [share_call] at hshare
      rw [borrowCall_of_not_isEmpty hempty]
      refine hshare.trans (buildsTo_add rfl fun x hx => ?_)
      simp only [Node.operands, List.cons_append, List.mem_cons, List.mem_append,
        List.not_mem_nil, or_false] at hx
      rw [size_add, size_add]
      rcases hx with rfl | hx | rfl
      · exact Nat.lt_succ_self _
      · exact Nat.lt_of_lt_of_le (hreleases x hx) (by omega)
      · exact Nat.lt_succ_self _

end Arena

namespace Cell

open Arena

/-- The cells a frame owns are those that are neither global nor captured. -/
theorem isOwned_eq (c : Cell) :
    c.isOwned = !decide (c.storage = .global ∨ c.storage = .captured) := by
  unfold isOwned
  cases c.storage <;> rfl

theorem buildsTo_load (c : Cell) (a : Arena) : a.BuildsTo (c.load a).2 := by
  have hslot : a.BuildsTo (a.add (.cell c)).2 := buildsTo_add rfl (by simp [Node.operands])
  unfold load slot
  cases c.isBoxed <;> cases c.refCounted
  · exact hslot
  · exact hslot.trans (buildsTo_add_over rfl rfl)
  · exact hslot.trans (buildsTo_add_over rfl rfl)
  · exact hslot.trans ((buildsTo_add_over rfl rfl).trans (buildsTo_add_over rfl rfl))

theorem buildsTo_storeSlot (c : Cell) {value : ExprId} {a : Arena} (hvalue : value < a.size) :
    a.BuildsTo (c.storeSlot value a).2 := by
  have hslot : a.BuildsTo (a.add (.cell c)).2 := buildsTo_add rfl (by simp [Node.operands])
  have hops : ∀ x ∈ [a.size, value], x < (a.add (.cell c)).2.size := by
    simpa using Nat.lt_succ_of_lt hvalue
  exact hslot.trans (buildsTo_add rfl hops)

theorem buildsTo_assign (c : Cell) {value : ExprId} {a : Arena} (hvalue : value < a.size) :
    a.BuildsTo (c.assign value a).2 := by
  have hslot : a.BuildsTo (a.add (.cell c)).2 := buildsTo_add rfl (by simp [Node.operands])
  have hops : ∀ x ∈ [a.size, value], x < (a.add (.cell c)).2.size := by
    simpa using Nat.lt_succ_of_lt hvalue
  unfold assign
  split
  · exact hslot.trans (buildsTo_add rfl hops)
  · exact buildsTo_storeSlot c hvalue

end Cell

/-! ## Procedures -/

namespace Procedure

/-- One step of building a procedure. A statement may name any label, placed or not, made or not. -/
inductive Step (p : Procedure) : Procedure → Prop where
  | nest (parent : Option ProcId) (isRoot : Bool) : Step p { p with parent, isRoot }
  | addArgument (d : Declaration) : Step p (p.addArgument d).2
  | addLocal (d : Declaration) : Step p (p.addLocal d).2
  | addCaptured (d : Declaration) : Step p (p.addCaptured d).2
  | newLabel (base : String) : Step p (p.newLabel base).2
  | build {arena : Arena} (h : p.arena.Step arena) : Step p { p with arena }
  | emit (s : Stmt) (hs : ∀ e, s.expr? = some e → e < p.arena.size) : Step p (p.emit s)

def BuildsTo : Procedure → Procedure → Prop :=
  ReflTransGen Step

/-- The procedure is built from one that has only an id and a name. -/
def Built (p : Procedure) : Prop :=
  ∃ id name, BuildsTo { id, name } p

theorem buildsTo_build {p : Procedure} {arena : Arena} (h : p.arena.BuildsTo arena) :
    p.BuildsTo { p with arena } := by
  induction h with
  | refl => exact ReflTransGen.refl
  | tail _ hstep ih => exact ih.tail (Step.build hstep)

theorem buildsTo_emit {p : Procedure} {s : Stmt} (hs : ∀ e, s.expr? = some e → e < p.arena.size) :
    p.BuildsTo (p.emit s) :=
  ReflTransGen.single (Step.emit s hs)

/-- Building on a procedure keeps its nodes and its statements. -/
theorem BuildsTo.growsTo {p q : Procedure} (h : p.BuildsTo q) :
    p.arena.GrowsTo q.arena ∧ p.body.toList <+: q.body.toList := by
  induction h with
  | refl => exact ⟨Arena.GrowsTo.refl _, List.prefix_refl _⟩
  | tail _ hstep ih =>
      obtain ⟨harena, hbody⟩ := ih
      cases hstep with
      | build h => exact ⟨harena.trans h.growsTo, hbody⟩
      | emit s _ =>
          refine ⟨harena, hbody.trans ?_⟩
          rw [emit, Array.toList_push]
          exact List.prefix_append _ _
      | _ => exact ⟨harena, hbody⟩

/-- A walk finds every node it looks for. -/
structure Walkable (p : Procedure) : Prop where
  operandsPrecede : p.arena.OperandsPrecede
  roots_lt : ∀ s ∈ p.body.toList, ∀ e, s.expr? = some e → e < p.arena.size

/-- What every procedure has that is built. -/
structure WellFormed (p : Procedure) : Prop extends Walkable p where
  isOwned : ∀ c, c ∈ p.locals ∨ c ∈ p.args → c.isOwned = true

theorem WellFormed.step {p q : Procedure} (h : p.WellFormed) (hstep : p.Step q) :
    q.WellFormed := by
  cases hstep with
  | nest _ _ => exact ⟨⟨h.operandsPrecede, h.roots_lt⟩, h.isOwned⟩
  | addArgument d =>
      refine ⟨⟨h.operandsPrecede, h.roots_lt⟩, fun c hc => ?_⟩
      simp only [addArgument, Array.mem_push] at hc
      rcases hc with hc | hc | rfl
      · exact h.isOwned c (Or.inl hc)
      · exact h.isOwned c (Or.inr hc)
      · rfl
  | addLocal d =>
      refine ⟨⟨h.operandsPrecede, h.roots_lt⟩, fun c hc => ?_⟩
      simp only [addLocal, Array.mem_push] at hc
      rcases hc with (hc | rfl) | hc
      · exact h.isOwned c (Or.inl hc)
      · rfl
      · exact h.isOwned c (Or.inr hc)
  | addCaptured d => exact ⟨⟨h.operandsPrecede, h.roots_lt⟩, h.isOwned⟩
  | newLabel base => exact ⟨⟨h.operandsPrecede, h.roots_lt⟩, h.isOwned⟩
  | build harena =>
      exact ⟨⟨h.operandsPrecede.step harena, fun s hs e he =>
        Nat.lt_of_lt_of_le (h.roots_lt s hs e he) harena.growsTo.size_le⟩, h.isOwned⟩
  | emit s hroot =>
      refine ⟨⟨h.operandsPrecede, fun s' hs' => ?_⟩, h.isOwned⟩
      rcases Array.mem_push.mp (Array.mem_toList_iff.mp hs') with hs' | rfl
      · exact h.roots_lt s' (Array.mem_toList_iff.mpr hs')
      · exact hroot

/-- Every procedure that is built is well-formed. -/
theorem Built.wellFormed {p : Procedure} (hp : p.Built) : p.WellFormed := by
  obtain ⟨id, name, hbuilds⟩ := hp
  induction hbuilds with
  | refl => exact ⟨⟨Arena.operandsPrecede_empty, by simp⟩, by simp⟩
  | tail _ hstep ih => exact ih.step hstep

theorem Built.sharesOnce {p : Procedure} (hp : p.Built) : p.arena.SharesOnce := by
  obtain ⟨id, name, hbuilds⟩ := hp
  induction hbuilds with
  | refl =>
      intro e x he
      simp [Arena.get?] at he
  | tail _ hstep ih =>
      cases hstep with
      | build harena => exact ih.step harena
      | _ => exact ih

/-! ### Releases -/

/-- Appends what gives up the reference held through a cell. -/
def release (p : Procedure) (c : Cell) : Procedure :=
  { p with arena := ((p.arena.add (.cell c)).2.add (.release p.arena.size)).2 }.emit
    (.expr (p.arena.size + 1))

theorem buildsTo_release (p : Procedure) (c : Cell) : p.BuildsTo (p.release c) := by
  have hslot : p.arena.BuildsTo (p.arena.add (.cell c)).2 :=
    Arena.buildsTo_add rfl (by simp [Node.operands])
  have hbuild := buildsTo_build
    (hslot.trans (Arena.buildsTo_add_over (m := .release p.arena.size) rfl rfl))
  refine hbuild.trans (buildsTo_emit fun e he => ?_)
  obtain rfl := Option.some.inj he
  simp

theorem buildsTo_foldl_release (cs : List Cell) : ∀ (p : Procedure),
    p.BuildsTo (cs.foldl release p) := by
  induction cs with
  | nil => exact fun p => ReflTransGen.refl
  | cons c cs ih => exact fun p => (buildsTo_release p c).trans (ih (p.release c))

theorem releaseCell_run (c : Cell) (p : Procedure) :
    (releaseCell c).run p =
      if c.isOwned then (.ok (), if c.isManaged then p.release c else p)
      else (.error (.notOwned c.text), p) := by
  unfold releaseCell release
  rw [← Arena.size_add p.arena (.cell c)]
  cases c.isOwned <;> cases c.isManaged <;> rfl

/-- Releasing cells that the frame owns releases the managed ones in order. -/
theorem forM_releaseCell_run {cs : List Cell} (h : ∀ c ∈ cs, c.isOwned = true) (p : Procedure) :
    (cs.forM releaseCell).run p = (.ok (), (cs.filter Cell.isManaged).foldl release p) := by
  induction cs generalizing p with
  | nil => rfl
  | cons c cs ih =>
      have hrun := releaseCell_run c p
      rw [h c List.mem_cons_self, if_pos rfl] at hrun
      have hcs := ih fun d hd => h d (List.mem_cons_of_mem _ hd)
      rw [List.forM_eq_forM, List.forM_cons, ExceptT.run_bind]
      simp only [bind, StateT.bind]
      rw [hrun]
      cases hmanaged : c.isManaged with
      | true => simpa [hmanaged] using hcs (p.release c)
      | false => simpa [hmanaged] using hcs p

/-- The managed cells that the frame gives up when it is left. -/
def releasable (p : Procedure) : List Cell :=
  if p.isRoot then [] else (p.locals.toList ++ p.args.toList).filter Cell.isManaged

theorem releaseAll_run {p : Procedure}
    (h : ∀ c, c ∈ p.locals ∨ c ∈ p.args → c.isOwned = true) :
    releaseAll.run p = (.ok (), p.releasable.foldl release p) := by
  have howned : ∀ c ∈ p.locals.toList ++ p.args.toList, c.isOwned = true := fun c hc =>
    h c (by simpa using hc)
  unfold releasable
  show (if p.isRoot then (pure () : Releasing Unit)
    else (p.locals.toList ++ p.args.toList).forM releaseCell).run p = _
  cases p.isRoot with
  | true => rfl
  | false => exact forM_releaseCell_run howned p

end Procedure

end StackIR
