import Mathlib.Algebra.Order.BigOperators.Group.Finset
import StackIR.Proofs.Layout
import StackIR.Proofs.SharedValues

/-!
# Slots stay behind their access

The slot of a cell that the frame holds a reference through is never a value of its own. Each node
for such a slot is made by an access to the cell, right before the node that unboxes, retains,
writes or releases it (`Arena.Guards`), and no other place refers to it
(`Script.guardedSlot_of_lower`).

Making nodes keeps the slots guarded, one node at a time (`Guards.add`); a statement does, since the
write of a cell stands right behind the slot (`Emits.guards`), and so does the run of a body. That
nothing else refers to the slot is the account of who takes over a node (`Owned.count_eq`).
-/

namespace StackIR

namespace Arena

/-! ## Slots that are read -/

/-- A slot is read: through the box if there is one, and the value is retained if it is counted.
The nodes for this stand right behind the slot. -/
def ReadsSlot (a : Arena) (c : Cell) (e : ExprId) : Prop :=
  if c.isBoxed then
    a.get? (e + 1) = some (.runtimeCall c.boxReader false [e]) ∧
      (c.refCounted = true → a.get? (e + 2) = some (.retain (e + 1)))
  else a.get? (e + 1) = some (.retain e)

/-- What is retained is a counted cell that has been read: the slot or what its box holds. -/
def RetainsCounted (a : Arena) (x : ExprId) : Prop :=
  ∃ c : Cell, c.refCounted = true ∧ (a.get? x = some (.cell c) ∨
    ∃ name slot, a.get? x = some (.runtimeCall name false [slot]) ∧ a.get? slot = some (.cell c))

/-- The slot `e` of a cell is read at the node `u`. -/
inductive ReadsAt (a : Arena) (d : Cell) (e u : ExprId) : Prop where
  /-- The box of the cell is read, and the value retained exactly if it is counted. -/
  | box (hboxed : d.isBoxed = true)
      (hu : a.get? u = some (.runtimeCall
        ("bitvm::ldloc" ++ if d.refCounted then "Ref" else "") false [e]))
      (hretain : (∃ v, a.get? v = some (.retain u)) ↔ d.refCounted = true)
  | retain (hboxed : d.isBoxed = false) (hcounted : d.refCounted = true)
      (hu : a.get? u = some (.retain e))

/-- In a stretch of the arena, each slot through which the frame holds a reference is read or
written as `Writes` tells, and only counted cells are retained. -/
structure Guards (c : Arena) (Writes : Cell → ExprId → Prop) (lo hi : Nat) : Prop where
  slot : ∀ {e : Nat} {d : Cell}, lo ≤ e → e < hi → c.get? e = some (.cell d) →
    d.isManaged = true → c.ReadsSlot d e ∨ Writes d e
  retain : ∀ {u x : Nat}, lo ≤ u → u < hi → c.get? u = some (.retain x) → c.RetainsCounted x

namespace Guards

variable {a c : Arena} {Writes : Cell → ExprId → Prop} {lo : Nat} {n : Node}

theorem nil (c : Arena) (Writes : Cell → ExprId → Prop) (lo : Nat) : Guards c Writes lo lo where
  slot hlo hhi := by omega
  retain hlo hhi := by omega

/-- One more node keeps the slots guarded, if it is guarded itself. -/
theorem add (h : Guards c Writes lo a.size) (hc : (a.add n).2.GrowsTo c)
    (hslot : ∀ d, n = .cell d → d.isManaged = true → c.ReadsSlot d a.size ∨ Writes d a.size)
    (hretain : ∀ x, n = .retain x → c.RetainsCounted x) : Guards c Writes lo (a.add n).2.size where
  slot {e d} hlo hhi he hd := by
    rw [size_add] at hhi
    rcases Nat.lt_succ_iff_lt_or_eq.mp hhi with hlt | rfl
    · exact h.slot hlo hlt he hd
    · exact hslot d (Option.some.inj (hc.get?_size.symm.trans he)) hd
  retain {u x} hlo hhi hu := by
    rw [size_add] at hhi
    rcases Nat.lt_succ_iff_lt_or_eq.mp hhi with hlt | rfl
    · exact h.retain hlo hlt hu
    · exact hretain x (Option.some.inj (hc.get?_size.symm.trans hu))

theorem addCell {d : Cell} (h : Guards c Writes lo a.size) (hc : (a.add (.cell d)).2.GrowsTo c)
    (hd : d.isManaged = true → c.ReadsSlot d a.size ∨ Writes d a.size) :
    Guards c Writes lo (a.add (.cell d)).2.size := by
  refine h.add hc (fun d' hd' hmanaged => ?_) (by simp)
  obtain rfl := Node.cell.inj hd'
  exact hd hmanaged

/-- A node that is neither a slot nor a retain is no matter. -/
theorem addOther (h : Guards c Writes lo a.size) (hc : (a.add n).2.GrowsTo c)
    (hslot : ∀ d, n ≠ .cell d) (hretain : ∀ x, n ≠ .retain x) :
    Guards c Writes lo (a.add n).2.size :=
  h.add hc (fun d hd => absurd hd (hslot d)) fun x hx => absurd hx (hretain x)

theorem share {e : ExprId} (h : Guards c Writes lo a.size) (hc : (a.share e).2.GrowsTo c) :
    Guards c Writes lo (a.share e).2.size := by
  cases hreuse : a.isReusable e with
  | true =>
      rw [share_of_reusable hreuse]
      exact h
  | false =>
      rw [share_of_not_reusable hreuse] at hc ⊢
      exact h.addOther hc (by simp) (by simp)

theorem borrow (mask : BitVec 32) {es : List ExprId} : ∀ {a : Arena} {i : Nat},
    Guards c Writes lo a.size → (a.borrow mask i es).2.GrowsTo c →
      Guards c Writes lo (a.borrow mask i es).2.size := by
  induction es with
  | nil => exact fun h _ => h
  | cons e es ih =>
      intro a i h hc
      cases hbit : mask.getLsbD i with
      | false =>
          rw [borrow_cons_of_not_bit hbit] at hc ⊢
          exact ih h hc
      | true =>
          rw [borrow_cons_of_bit hbit] at hc ⊢
          have hrelease := (growsTo_borrow mask es _ (i + 1)).trans hc
          exact ih ((h.share ((growsTo_add _ _).trans hrelease)).addOther hrelease (by simp)
            (by simp)) hc

theorem borrowCall {name : String} {mask : BitVec 32} {isAsync : Bool} {args : List ExprId}
    (h : Guards c Writes lo a.size) (hc : (a.borrowCall name mask isAsync args).2.GrowsTo c) :
    Guards c Writes lo (a.borrowCall name mask isAsync args).2.size := by
  have hcalled := (called_growsTo_borrowCall a name mask isAsync args).trans hc
  have hcall := (h.borrow mask ((growsTo_add _ _).trans hcalled)).addOther hcalled (by simp)
    (by simp)
  cases hempty : (a.borrow mask 0 args).1.releases.isEmpty with
  | true =>
      rw [borrowCall_of_isEmpty hempty]
      exact hcall
  | false =>
      rw [borrowCall_of_not_isEmpty hempty] at hc ⊢
      exact (hcall.addOther ((growsTo_add _ _).trans hc) (by simp) (by simp)).addOther hc
        (by simp) (by simp)

/-- Where all slots are guarded, what is read from a box is retained for its own cell. -/
theorem readsAt {d : Cell} {e : ExprId} (h : Guards a Writes 0 a.size)
    (he : a.get? e = some (.cell d)) (hd : d.isManaged = true) (hread : a.ReadsSlot d e) :
    a.ReadsAt d e (e + 1) := by
  unfold ReadsSlot at hread
  cases hboxed : d.isBoxed with
  | true =>
      rw [if_pos hboxed] at hread
      obtain ⟨hcall, hcounted⟩ := hread
      refine .box hboxed hcall ⟨?_, fun h => ⟨_, hcounted h⟩⟩
      rintro ⟨v, hv⟩
      obtain ⟨d', hd', hcell | ⟨name, slot, hcall', hslot⟩⟩ :=
        h.retain (Nat.zero_le v) (lt_size_of_get? hv) hv
      · cases hcall.symm.trans hcell
      · -- The call reads one slot only, so the cell is this one.
        obtain ⟨-, -, hargs⟩ := Node.runtimeCall.inj (Option.some.inj (hcall.symm.trans hcall'))
        obtain rfl : e = slot := by simpa using hargs
        obtain rfl := Node.cell.inj (Option.some.inj (he.symm.trans hslot))
        exact hd'
  | false =>
      rw [hboxed, if_neg Bool.false_ne_true] at hread
      refine .retain hboxed ?_ hread
      simpa [Cell.isManaged, hboxed] using hd

end Guards

end Arena

namespace Cell

open Arena

variable {a c : Arena} {Writes : Cell → ExprId → Prop} {lo : Nat}

/-- Reading a cell reads its slot. -/
theorem guards_load (d : Cell) (h : Guards c Writes lo a.size) (hc : (d.load a).2.GrowsTo c) :
    Guards c Writes lo (d.load a).2.size := by
  unfold load slot at hc ⊢
  cases hboxed : d.isBoxed <;> cases hcounted : d.refCounted <;>
    simp only [hboxed, hcounted, if_true, if_false, Bool.false_eq_true, add_fst] at hc ⊢
  · refine h.addCell hc fun hmanaged => ?_
    simp [isManaged, hboxed, hcounted] at hmanaged
  · have hslot := (growsTo_add _ _).trans hc
    have hretain := hc.get?_size
    rw [size_add] at hretain
    refine (h.addCell hslot fun _ => Or.inl ?_).add hc (by simp) fun x hx => ?_
    · rwa [ReadsSlot, hboxed]
    · obtain rfl := Node.retain.inj hx
      exact ⟨d, hcounted, Or.inl hslot.get?_size⟩
  · have hslot := (growsTo_add _ _).trans hc
    have hread := hc.get?_size
    rw [size_add] at hread
    refine (h.addCell hslot fun _ => Or.inl ?_).addOther hc (by simp) (by simp)
    rw [ReadsSlot, hboxed, if_pos rfl]
    exact ⟨hread, by simp [hcounted]⟩
  · have hcall := (growsTo_add _ _).trans hc
    have hslot := (growsTo_add _ _).trans hcall
    have hread := hcall.get?_size
    have hretain := hc.get?_size
    rw [size_add] at hread
    rw [size_add, size_add] at hretain
    refine ((h.addCell hslot fun _ => Or.inl ?_).addOther hcall (by simp) (by simp)).add hc
      (by simp) fun x hx => ?_
    · rw [ReadsSlot, hboxed, if_pos rfl]
      exact ⟨hread, fun _ => hretain⟩
    · rw [← Node.retain.inj hx, size_add]
      exact ⟨d, hcounted, Or.inr ⟨_, _, hread, hslot.get?_size⟩⟩

/-- A slot is written by the node right behind it. -/
theorem guards_over_slot (d : Cell) {n : Node} (h : Guards c Writes lo a.size)
    (hc : ((a.add (.cell d)).2.add n).2.GrowsTo c) (hslot : ∀ d, n ≠ .cell d)
    (hretain : ∀ x, n ≠ .retain x) (hwrites : c.get? (a.size + 1) = some n → Writes d a.size) :
    Guards c Writes lo ((a.add (.cell d)).2.add n).2.size := by
  have hn := hc.get?_size
  rw [size_add] at hn
  exact (h.addCell ((growsTo_add _ _).trans hc) fun _ => Or.inr (hwrites hn)).addOther hc hslot
    hretain

end Cell

namespace Script

open Arena

variable {s : Script} {cells : CellTable} {c : Arena} {Writes : Cell → ExprId → Prop} {lo : Nat}

/-! ## Expressions -/

private theorem guardsCases (cells : CellTable) (c : Arena) (Writes : Cell → ExprId → Prop)
    (lo : Nat) : LoweringCases cells
      (fun _ a _ b => b.GrowsTo c → Guards c Writes lo a.size → Guards c Writes lo b.size)
      (fun _ a _ b => b.GrowsTo c → Guards c Writes lo a.size → Guards c Writes lo b.size) where
  leaf {e n a} he hc h := by
    cases e with
    | num value | bool value | pointer label info | jumpValue =>
        obtain rfl := Option.some.inj he
        exact h.addOther hc (by simp) (by simp)
    | _ => cases he
  load _ hc h := Cell.guards_load _ h hc
  call _ ih hc h := (ih ((appends_borrowCall _ _ _ _ _).growsTo.trans hc) h).borrowCall hc
  procCall _ ih hc h := (ih ((growsTo_add _ _).trans hc) h).addOther hc (by simp) (by simp)
  field _ ih hc h := (ih ((growsTo_add _ _).trans hc) h).addOther hc (by simp) (by simp)
  sequence _ ih hc h := (ih ((growsTo_add _ _).trans hc) h).addOther hc (by simp) (by simp)
  nil := fun _ h => h
  cons _ hes ih ihs hc h := ihs hc (ih ((appends_lowerExprs hes).growsTo.trans hc) h)

/-- The slots of a lowered expression are all read. -/
theorem guards_of_lowerExpr {e : Expr} {a b : Arena} {x : ExprId}
    (h : lowerExpr cells e a = .ok (x, b)) (hc : b.GrowsTo c) (ha : Guards c Writes lo a.size) :
    Guards c Writes lo b.size :=
  (guardsCases cells c Writes lo).of_lowerExpr h hc ha

/-! ## Statements -/

theorem getElem?_of_concat_isPrefix {α : Type*} {xs ys : List α} {x : α}
    (h : xs ++ [x] <+: ys) : ys[xs.length]? = some x := by
  obtain ⟨rest, rfl⟩ := h
  simp

theorem getElem?_of_push_isPrefix {α : Type*} {xs : Array α} {ys : List α} {x : α}
    (h : (xs.push x).toList <+: ys) : ys[xs.size]? = some x := by
  rw [Array.toList_push] at h
  exact getElem?_of_concat_isPrefix h

/-- How a statement handles the slot of a cell in the node that it evaluates. -/
inductive WritesSlot (s : Script) (c : Arena) : Stmt → Cell → ExprId → ExprId → Prop where
  /-- The slot of a boxed cell is only written to initialize it. -/
  | store {name : String} {value : Expr} {isInit : Bool} {d : Cell} {e u x : ExprId}
      (hd : s.cellNamed name = some d) (hinit : d.isBoxed = true → isInit = true)
      (hu : c.get? u = some (.store e x)) : WritesSlot s c (.store name value isInit) d e u
  | assignBox {name : String} {value : Expr} {d : Cell} {e u x : ExprId}
      (hd : s.cellNamed name = some d) (hboxed : d.isBoxed = true)
      (hu : c.get? u = some (.runtimeCall
        ("bitvm::stloc" ++ if d.refCounted then "Ref" else "") false [e, x])) :
      WritesSlot s c (.store name value false) d e u
  | giveUp {st : Stmt} {d : Cell} {e u : ExprId} (hd : d ∈ s.exits st)
      (hu : c.get? u = some (.release e)) : WritesSlot s c st d e u

/-- A write of a cell stands right behind the slot. -/
theorem Evaluates.guards {st : Stmt} {a b : Arena} {x : ExprId} (h : Evaluates cells st a x b)
    (hcells : ∀ name : String, cells[name]? = s.cellNamed name) (hc : b.GrowsTo c)
    (hwrites : ∀ d e, WritesSlot s c st d e x → Writes d e) (ha : Guards c Writes lo a.size) :
    Guards c Writes lo b.size := by
  cases h with
  | expr h => exact guards_of_lowerExpr h hc ha
  | @init name value d _ b x hd h =>
      have hvalue := guards_of_lowerExpr h ((d.appends_storeSlot x b).growsTo.trans hc) ha
      have hnode : (d.storeSlot x b).1 = b.size + 1 := size_add b _
      rw [hcells] at hd
      rw [hnode] at hwrites
      refine d.guards_over_slot hvalue hc (by simp) (by simp) fun hu => hwrites d b.size ?_
      exact .store hd (fun _ => rfl) hu
  | @assign name value d _ b x hd h =>
      have hvalue := guards_of_lowerExpr h ((d.appends_assign x b).growsTo.trans hc) ha
      have hnode : (d.assign x b).1 = b.size + 1 := by
        unfold Cell.assign
        split <;> exact size_add b _
      rw [hcells] at hd
      rw [hnode] at hwrites
      unfold Cell.assign at hc ⊢
      cases hboxed : d.isBoxed with
      | true =>
          simp only [hboxed, if_true] at hc ⊢
          refine d.guards_over_slot hvalue hc (by simp) (by simp) fun hu => hwrites d b.size ?_
          exact .assignBox hd hboxed hu
      | false =>
          simp only [hboxed, Bool.false_eq_true, if_false] at hc ⊢
          refine d.guards_over_slot hvalue hc (by simp) (by simp) fun hu => hwrites d b.size ?_
          exact .store hd (by simp [hboxed]) hu

theorem Carries.guards {value : Option Expr} {a b : Arena} {x : Option ExprId}
    (h : Carries cells value a x b) (hc : b.GrowsTo c) (ha : Guards c Writes lo a.size) :
    Guards c Writes lo b.size := by
  cases h with
  | nothing => exact ha
  | value h => exact guards_of_lowerExpr h hc ha

/-- Giving up cells releases their slots, each in a statement of its own. -/
theorem guards_foldl_release {body : List StackIR.Stmt} (cs : List Cell) : ∀ {p : Procedure},
    (cs.foldl Procedure.release p).arena.GrowsTo c →
      (cs.foldl Procedure.release p).body.toList <+: body →
      (∀ d ∈ cs, ∀ e u j : Nat, c.get? u = some (.release e) → p.body.size ≤ j →
        j < p.body.size + cs.length → body[j]? = some (.expr u) → Writes d e) →
      Guards c Writes lo p.arena.size →
        Guards c Writes lo (cs.foldl Procedure.release p).arena.size := by
  induction cs with
  | nil => exact fun _ _ _ h => h
  | cons d cs ih =>
      intro p hc hbody hwrites h
      obtain ⟨hgrows, hstmts⟩ := (Procedure.buildsTo_foldl_release cs (p.release d)).growsTo
      have hsize : (p.release d).body.size = p.body.size + 1 := Array.size_push _
      have hstmt : body[p.body.size]? = some (.expr (p.arena.size + 1)) :=
        getElem?_of_push_isPrefix (hstmts.trans hbody)
      refine ih hc hbody (fun d' hd' e u j hu hlo hhi => ?_) ?_
      · rw [hsize] at hlo hhi
        exact hwrites d' (List.mem_cons_of_mem _ hd') e u j hu (by omega)
          (by rw [List.length_cons]; omega)
      · refine d.guards_over_slot h (hgrows.trans hc) (by simp) (by simp) fun hu => ?_
        exact hwrites d List.mem_cons_self _ _ _ hu (Nat.le_refl _)
          (by rw [List.length_cons]; omega) hstmt

theorem Emits.guards {m m' : Emission} {st : Stmt} (h : Emits s cells m st m')
    (hcells : ∀ name : String, cells[name]? = s.cellNamed name)
    (hc : m'.procedure.arena.GrowsTo c) {body : List StackIR.Stmt}
    (hbody : m'.procedure.body.toList <+: body)
    (hwrites : ∀ (d : Cell) (e u : ExprId) (j : Nat), WritesSlot s c st d e u →
      m.procedure.body.size ≤ j → j < m'.procedure.body.size → body[j]? = some (.expr u) →
        Writes d e)
    (hm : Guards c Writes lo m.procedure.arena.size) :
    Guards c Writes lo m'.procedure.arena.size := by
  have hsize := h.size_body
  cases h with
  | @evaluate _ x b h =>
      have hstmt : body[m.procedure.body.size]? = some (.expr x) :=
        getElem?_of_push_isPrefix hbody
      have hlt : m.procedure.body.size < ((m.withArena b).emit (.expr x)).procedure.body.size := by
        have hwidth : s.width st = 1 := by cases h <;> rfl
        omega
      exact h.guards hcells hc (fun d e hde => hwrites d e x _ hde (Nat.le_refl _) hlt hstmt) hm
  | label name =>
      have harena : (m.label name).2.procedure.arena = m.procedure.arena := by
        rw [m.label_procedure name]
      show Guards c Writes lo (m.label name).2.procedure.arena.size
      rwa [harena]
  | jump target mode h => exact h.guards hc hm
  | stackEmpty => exact hm
  | exit hst _ =>
      refine guards_foldl_release (s.exits st) hc hbody (fun d hd e u j hu hlo hhi hj => ?_) hm
      refine hwrites d e u j (.giveUp hd hu) hlo ?_ hj
      obtain ⟨xs, hxs, hstmts, -⟩ := body_foldl_release (s.exits st) m.procedure
      rw [← Array.length_toList, hstmts, List.length_append, List.length_map, hxs,
        Array.length_toList]
      exact hhi

/-! ## Bodies -/

/-- The slot of a cell is written by a statement of the script, in a statement of the procedure that
it comes to. -/
def IsWritten (s : Script) (c : Arena) (body : List StackIR.Stmt) (d : Cell) (e : ExprId) : Prop :=
  ∃ (k j : Nat) (st : Stmt) (u : ExprId), s.body[k]? = some st ∧ WritesSlot s c st d e u ∧
    s.offset k ≤ j ∧ j < s.offset (k + 1) ∧ body[j]? = some (.expr u)

theorem Emitted.guards {m m' : Emission} {ss : List Stmt} (h : Emitted s cells m ss m')
    (hcells : ∀ name : String, cells[name]? = s.cellNamed name) {body : List StackIR.Stmt}
    (hempty : m.procedure.body.size = 0)
    (hm : Guards c (s.IsWritten c body) 0 m.procedure.arena.size) :
    m'.procedure.arena.GrowsTo c → m'.procedure.body.toList <+: body → ss <+: s.body →
      m'.procedure.body.size = s.offset ss.length ∧
        Guards c (s.IsWritten c body) 0 m'.procedure.arena.size := by
  induction h with
  | nil => exact fun _ _ _ => ⟨by rw [hempty]; rfl, hm⟩
  | @concat ss m₁ m₂ st _ hstep ih =>
      intro hc hbody hss
      obtain ⟨hgrows, hstmts⟩ := hstep.buildsTo.growsTo
      obtain ⟨hsize, hguards⟩ := ih (hgrows.trans hc) (hstmts.trans hbody)
        ((List.prefix_append ss [st]).trans hss)
      have hst : s.body[ss.length]? = some st := getElem?_of_concat_isPrefix hss
      have hsize' : m₂.procedure.body.size = s.offset (ss.length + 1) := by
        rw [hstep.size_body, hsize, offset_succ hst]
      refine ⟨by rw [hsize', List.length_append, List.length_singleton], ?_⟩
      refine hstep.guards hcells hc hbody (fun d e u j hde hlo hhi hj => ?_) hguards
      rw [hsize] at hlo
      rw [hsize'] at hhi
      exact ⟨ss.length, j, st, u, hst, hde, hlo, hhi, hj⟩

/-- The slots of a lowered procedure are guarded. -/
theorem guards_of_lower {p : Procedure} (h : s.lower = .ok p) :
    Guards p.arena (s.IsWritten p.arena p.body.toList) 0 p.arena.size := by
  obtain ⟨d, m, hd, hrun, rfl⟩ := emitted_of_lower h
  have hprocedure := (declares_of_declared hd).procedure_eq
  refine (hrun.guards (getElem?_cells_eq hd) ?_ ?_ (GrowsTo.refl _) (List.prefix_refl _)
    (List.prefix_refl _)).2
  · rw [hprocedure]
    rfl
  · rw [hprocedure]
    exact Guards.nil _ _ 0

end Script

/-! ## The only reference -/

/-- A place that can refer to a node: an operand of a node, or the expression of a statement. -/
inductive Place where
  | operand (node : ExprId) (i : Nat)
  | root (stmt : Nat)
deriving DecidableEq

def Procedure.Refers (p : Procedure) (e : ExprId) : Place → Prop
  | .operand u i => ∃ n, p.arena.get? u = some n ∧ n.operands[i]? = some e
  | .root k => ∃ st, p.body.toList[k]? = some st ∧ st.expr? = some e

namespace Script

open Arena Finset

/-- A slot is taken over at one place. -/
theorem Stretches.count_slot {p : Procedure} (h : Stretches p.arena p.body.toList p.arena.size)
    {d : Cell} {e : ExprId} (he : p.arena.get? e = some (.cell d)) :
    ∑ u ∈ range p.arena.size, p.arena.operandCount u e + p.roots.count e = 1 := by
  have hcount := h.owned.count_eq e
  have hliteral : p.arena.isLiteral e = false := by
    rw [isLiteral, he]
    rfl
  have hplaces : p.arena.places e = 1 := by
    rw [places, isShared_eq he]
    rfl
  rw [if_pos ⟨Nat.zero_le e, lt_size_of_get? he⟩, hplaces, ← range_eq_Ico] at hcount
  simp only [operandCount_eq_owned, hliteral, Bool.false_eq_true, false_and, if_false,
    Nat.add_zero]
  exact hcount

/-- The place that takes over a slot is the only one that refers to it. -/
theorem Stretches.refers_iff {p : Procedure} (h : Stretches p.arena p.body.toList p.arena.size)
    {d : Cell} {e u : ExprId} {n : Node} (he : p.arena.get? e = some (.cell d))
    (hu : p.arena.get? u = some n) {rest : List ExprId} (hn : n.operands = e :: rest)
    (place : Place) : p.Refers e place ↔ place = .operand u 0 := by
  have hcount := h.count_slot he
  have hurange : u ∈ range p.arena.size := mem_range.mpr (lt_size_of_get? hu)
  have hpos : p.arena.operandCount u e = rest.count e + 1 := by
    rw [operandCount_eq hu, hn, List.count_cons_self]
  have hle : p.arena.operandCount u e ≤ ∑ u ∈ range p.arena.size, p.arena.operandCount u e :=
    single_le_sum (f := fun u => p.arena.operandCount u e) (fun _ _ => Nat.zero_le _) hurange
  constructor
  · intro hplace
    cases place with
    | root k =>
        obtain ⟨st, hk, hst⟩ := hplace
        have hroot : 0 < p.roots.count e := List.count_pos_iff.mpr
          (List.mem_filterMap.mpr ⟨st, List.mem_of_getElem? hk, hst⟩)
        omega
    | operand v i =>
        obtain ⟨m, hv, hi⟩ := hplace
        have hvpos : 0 < p.arena.operandCount v e := by
          rw [operandCount_eq hv]
          exact List.count_pos_iff.mpr (List.mem_of_getElem? hi)
        by_cases huv : u = v
        · subst huv
          obtain rfl := Option.some.inj (hu.symm.trans hv)
          cases i with
          | zero => rfl
          | succ i =>
              rw [hn, List.getElem?_cons_succ] at hi
              have hrest := List.count_pos_iff.mpr (List.mem_of_getElem? hi)
              omega
        · have htwo : p.arena.operandCount u e + p.arena.operandCount v e ≤
              ∑ u ∈ range p.arena.size, p.arena.operandCount u e :=
            add_le_sum (f := fun u => p.arena.operandCount u e) (fun _ _ => Nat.zero_le _) hurange
              (mem_range.mpr (lt_size_of_get? hv)) huv
          omega
  · rintro rfl
    exact ⟨n, hu, by rw [hn]; rfl⟩

/-! ## Guarded slots -/

/-- One node refers to the slot `e` of a cell and accesses the cell: it reads the cell, or it is
what a statement of the script evaluates to write the cell or to give it up. -/
structure GuardedSlot (s : Script) (p : Procedure) (d : Cell) (e u : ExprId) : Prop where
  refers_iff : ∀ place, p.Refers e place ↔ place = .operand u 0
  access : p.arena.ReadsAt d e u ∨ ∃ (k j : Nat) (st : Stmt), s.body[k]? = some st ∧
    WritesSlot s p.arena st d e u ∧ s.offset k ≤ j ∧ j < s.offset (k + 1) ∧
      p.body.toList[j]? = some (.expr u)

/-- The slots through which the frame holds references are guarded, whatever the script. -/
theorem guardedSlot_of_lower {s : Script} {p : Procedure} (h : s.lower = .ok p) {d : Cell}
    {e : ExprId} (he : p.arena.get? e = some (.cell d)) (hd : d.isManaged = true) :
    ∃ u, GuardedSlot s p d e u := by
  have hguards := guards_of_lower h
  have hstretches := stretches_of_lower h
  rcases hguards.slot (Nat.zero_le e) (lt_size_of_get? he) he hd with hread | hwritten
  · have hreads := hguards.readsAt he hd hread
    refine ⟨e + 1, ?_, Or.inl hreads⟩
    cases hreads with
    | box _ hu _ => exact hstretches.refers_iff he hu rfl
    | retain _ _ hu => exact hstretches.refers_iff he hu rfl
  · obtain ⟨k, j, st, u, hk, hwrites, hlo, hhi, hj⟩ := hwritten
    refine ⟨u, ?_, Or.inr ⟨k, j, st, hk, hwrites, hlo, hhi, hj⟩⟩
    cases hwrites with
    | store _ _ hu => exact hstretches.refers_iff he hu rfl
    | assignBox _ _ hu => exact hstretches.refers_iff he hu rfl
    | giveUp _ hu => exact hstretches.refers_iff he hu rfl

def boxedLocal : Cell where
  decl := 0
  name := some "s"
  captured := true
  written := true
  refCounted := true
  index := 0
  storage := .localVar

/-- A boxed counted local is initialized, assigned its own value and given up. -/
def assignBoxed : Script where
  header := {}
  cells := [⟨"s", .localVar, none, true, true, true⟩]
  body := [.store "s" (.num 1) true, .store "s" (.load "s") false, .clearAll]

def assignBoxedLowered : Procedure where
  id := 0
  locals := #[boxedLocal]
  arena := ⟨#[.literal (.int 1), .cell boxedLocal, .store 1 0, .cell boxedLocal,
    .runtimeCall "bitvm::ldlocRef" false [3], .retain 4, .cell boxedLocal,
    .runtimeCall "bitvm::stlocRef" false [6, 5], .cell boxedLocal, .release 8]⟩
  body := #[.expr 2, .expr 7, .expr 9]

theorem lower_assignBoxed : assignBoxed.lower = .ok assignBoxedLowered := by
  have hdeclared : assignBoxed.declared = .ok
      { procedure := { id := 0, locals := #[boxedLocal] }
        cells := (∅ : CellTable).insert "s" boxedLocal
        decls := (∅ : Std.HashSet DeclId).insert 0 } :=
    declared_singleton ..
  have hcell : ((∅ : CellTable).insert "s" boxedLocal)["s"]? = some boxedLocal :=
    Std.HashMap.getElem?_insert_self
  have hfind := findCell_eq_ok.mpr hcell
  have hload : ∀ a, lowerExpr ((∅ : CellTable).insert "s" boxedLocal) (.load "s") a =
      .ok (boxedLocal.load a) := fun a => lowerExpr_load_insert ..
  refine except_bind_eq_ok.mpr ⟨_, hdeclared, except_bind_eq_ok.mpr
    ⟨{ procedure := assignBoxedLowered }, ?_, rfl⟩⟩
  simp only [assignBoxed, List.foldlM_cons, List.foldlM_nil]
  refine except_bind_eq_ok.mpr ⟨_, except_bind_eq_ok.mpr ⟨_, hfind, except_bind_eq_ok.mpr ⟨_,
    build_eq_ok.mpr ⟨_, bind_eq_ok.mpr ⟨0, _, by rw [lowerExpr]; rfl, rfl⟩, rfl⟩, rfl⟩⟩, ?_⟩
  refine except_bind_eq_ok.mpr ⟨_, except_bind_eq_ok.mpr ⟨_, hfind, except_bind_eq_ok.mpr ⟨_,
    build_eq_ok.mpr ⟨_, bind_eq_ok.mpr ⟨_, _, hload _, rfl⟩, rfl⟩, rfl⟩⟩, ?_⟩
  rfl

/-- The slot is initialized, read, assigned through the box and given up, each time at the node
behind it. -/
theorem guardedSlot_assignBoxed :
    assignBoxed.lower = .ok assignBoxedLowered ∧ boxedLocal.isManaged = true ∧
      ∀ e ∈ [1, 3, 6, 8], assignBoxedLowered.arena.get? e = some (.cell boxedLocal) ∧
        GuardedSlot assignBoxed assignBoxedLowered boxedLocal e (e + 1) := by
  have hslot : ∀ e : Nat, assignBoxedLowered.arena.get? e = some (.cell boxedLocal) →
      assignBoxedLowered.Refers e (.operand (e + 1) 0) →
        GuardedSlot assignBoxed assignBoxedLowered boxedLocal e (e + 1) := fun e he hrefers => by
    obtain ⟨u, hu⟩ := guardedSlot_of_lower lower_assignBoxed he (by decide)
    obtain ⟨heq, -⟩ := Place.operand.inj ((hu.refers_iff _).mp hrefers)
    rwa [heq]
  refine ⟨lower_assignBoxed, by decide, fun e he => ?_⟩
  simp only [List.mem_cons, List.not_mem_nil, or_false] at he
  rcases he with rfl | rfl | rfl | rfl <;> exact ⟨rfl, hslot _ rfl ⟨_, rfl, rfl⟩⟩

end Script

end StackIR
