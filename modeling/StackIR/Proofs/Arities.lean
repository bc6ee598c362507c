import StackIR.Proofs.Faults
import StackIR.Proofs.ReferenceCounts

/-!
# The operands of lowered nodes

An operation takes the operands that its kind calls for (`Arena.FitsKinds`): all but calls and
sequences take a fixed number, and the first operand of a store is the slot of a cell. Every lowered
procedure keeps to that. A sequence takes its value from its last item, and this is where lowering
falls short: the sequences it makes of its own accord have items, but an empty sequence of the
script is made as it is, and has no value (`Script.fitsKinds_of_lower`).

What is added to an arena is looked at one node at a time (`Arena.Widens.add`); a statement widens
the arena, and so does a run of statements.
-/

namespace StackIR

/-- The number of operands that the operation of a node takes, if it is fixed. -/
def Node.arity? : Node → Option Nat
  | .literal _ | .pointer .. | .cell _ | .jumpValue => some 0
  | .shared _ | .field .. | .retain _ | .release _ => some 1
  | .store .. => some 2
  | .runtimeCall .. | .procCall .. | .sequence _ => none

namespace Arena

/-- Every store writes to the slot of a cell. -/
def StoresToCells (a : Arena) : Prop :=
  ∀ {e target value : ExprId}, a.get? e = some (.store target value) →
    ∃ c, a.get? target = some (.cell c)

/-- The operands of every node are those its kind calls for. A sequence may still have none. -/
structure FitsKinds (a : Arena) : Prop where
  arity : ∀ {e : ExprId} {n : Node} {k : Nat}, a.get? e = some n → n.arity? = some k →
    n.operands.length = k
  storesToCells : a.StoresToCells

def HasEmptySequence (a : Arena) : Prop :=
  ∃ e, a.get? e = some (.sequence [])

/-- Nodes are added to the arena: stores still write to cells, and the new nodes have a sequence
without items exactly if `empty` holds. -/
structure Widens (a b : Arena) (empty : Prop) : Prop where
  storesToCells : a.StoresToCells → b.StoresToCells
  hasEmptySequence_iff : b.HasEmptySequence ↔ a.HasEmptySequence ∨ empty

namespace Widens

variable {a b c : Arena} {E F : Prop}

theorem refl (a : Arena) : Widens a a False where
  storesToCells h := h
  hasEmptySequence_iff := (or_false _).symm.to_iff

theorem trans (hab : Widens a b E) (hbc : Widens b c F) : Widens a c (E ∨ F) where
  storesToCells h := hbc.storesToCells (hab.storesToCells h)
  hasEmptySequence_iff := by
    rw [hbc.hasEmptySequence_iff, hab.hasEmptySequence_iff, or_assoc]

theorem congr (h : Widens a b E) (hEF : E ↔ F) : Widens a b F where
  storesToCells := h.storesToCells
  hasEmptySequence_iff := by rw [h.hasEmptySequence_iff, hEF]

/-- What has items only changes nothing about the sequences. -/
theorem extend (hab : Widens a b E) (hbc : Widens b c False) : Widens a c E :=
  (hab.trans hbc).congr (or_false E).to_iff

theorem add {n : Node}
    (hstore : ∀ target value, n = .store target value → ∃ d, a.get? target = some (.cell d)) :
    Widens a (a.add n).2 (n = .sequence []) where
  storesToCells h e target value he := by
    have hold : ∃ d, a.get? target = some (.cell d) := by
      rcases get?_add_eq_some he with he | ⟨-, rfl⟩
      · exact h he
      · exact hstore target value rfl
    obtain ⟨d, hd⟩ := hold
    exact ⟨d, (growsTo_add a n).get?_of_some hd⟩
  hasEmptySequence_iff := by
    constructor
    · rintro ⟨e, he⟩
      rcases get?_add_eq_some he with he | ⟨-, hn⟩
      · exact Or.inl ⟨e, he⟩
      · exact Or.inr hn.symm
    · rintro (⟨e, he⟩ | rfl)
      · exact ⟨e, (growsTo_add a n).get?_of_some he⟩
      · exact ⟨a.size, get?_add_self a _⟩

/-- A node that is neither a store nor an empty sequence is no matter. -/
theorem addOther {n : Node} (hstore : ∀ target value, n ≠ .store target value)
    (hsequence : n ≠ .sequence []) : Widens a (a.add n).2 False :=
  (add fun target value hn => absurd hn (hstore target value)).congr
    (iff_false_intro hsequence)

theorem share (a : Arena) (e : ExprId) : Widens a (a.share e).2 False := by
  cases hreuse : a.isReusable e with
  | true =>
      rw [share_of_reusable hreuse]
      exact refl a
  | false =>
      rw [share_of_not_reusable hreuse]
      exact addOther (by simp) (by simp)

theorem borrow (mask : BitVec 32) (es : List ExprId) :
    ∀ (a : Arena) (i : Nat), Widens a (a.borrow mask i es).2 False := by
  induction es with
  | nil => exact fun a _ => refl a
  | cons e es ih =>
      intro a i
      cases hbit : mask.getLsbD i with
      | false =>
          rw [borrow_cons_of_not_bit hbit]
          exact ih a (i + 1)
      | true =>
          rw [borrow_cons_of_bit hbit]
          exact ((share a e).extend (addOther (by simp) (by simp))).extend (ih _ (i + 1))

/-- The sequence of a borrowing call has the call for an item. -/
theorem borrowCall (a : Arena) (name : String) (mask : BitVec 32) (isAsync : Bool)
    (args : List ExprId) : Widens a (a.borrowCall name mask isAsync args).2 False := by
  have hcall := (borrow mask args a 0).extend
    (addOther (n := .runtimeCall name isAsync (a.borrow mask 0 args).1.args) (by simp) (by simp))
  cases hempty : (a.borrow mask 0 args).1.releases.isEmpty with
  | true =>
      rw [borrowCall_of_isEmpty hempty]
      exact hcall
  | false =>
      rw [borrowCall_of_not_isEmpty hempty]
      exact (hcall.extend (addOther (by simp) (by simp))).extend (addOther (by simp) (by simp))

/-- What writes a cell stands right behind its slot. -/
theorem addStore (a : Arena) (d : Cell) (value : ExprId) :
    Widens a ((a.add (.cell d)).2.add (.store a.size value)).2 False := by
  refine (addOther (n := .cell d) (by simp) (by simp)).extend
    ((add fun target value' hn => ?_).congr ?_)
  · obtain ⟨rfl, -⟩ := Node.store.inj hn
    exact ⟨d, get?_add_self a _⟩
  · exact iff_false_intro (by simp)

end Widens

end Arena

/-! ## Access to cells -/

namespace Cell

open Arena

theorem widens_load (d : Cell) (a : Arena) : Widens a (d.load a).2 False := by
  have hslot : Widens a (a.add (.cell d)).2 False := .addOther (by simp) (by simp)
  unfold load slot
  cases d.isBoxed <;> cases d.refCounted
  · exact hslot
  · exact hslot.extend (.addOther (by simp) (by simp))
  · exact hslot.extend (.addOther (by simp) (by simp))
  · exact (hslot.extend (.addOther (by simp) (by simp))).extend (.addOther (by simp) (by simp))

theorem widens_assign (d : Cell) (value : ExprId) (a : Arena) :
    Widens a (d.assign value a).2 False := by
  unfold assign
  split
  · exact (Widens.addOther (n := .cell d) (by simp) (by simp)).extend
      (.addOther (by simp) (by simp))
  · exact .addStore a d value

end Cell

namespace Script

open Arena

variable {s : Script} {cells : CellTable}

/-! ## Expressions -/

/-- Whether a sequence without items is part of an expression. -/
def Expr.HasEmptySequence (e : Expr) : Prop :=
  ∃ π, e.at? π = some (.sequence [])

theorem Expr.hasEmptySequence_iff {e : Expr} :
    e.HasEmptySequence ↔ e = .sequence [] ∨ ∃ e' ∈ e.operands, e'.HasEmptySequence := by
  constructor
  · rintro ⟨π, hπ⟩
    cases π with
    | nil => exact Or.inl (Option.some.inj ((at?_nil e).symm.trans hπ))
    | cons i π =>
        rw [at?_cons] at hπ
        obtain ⟨e', he', hπ⟩ := Option.bind_eq_some_iff.mp hπ
        exact Or.inr ⟨e', List.mem_of_getElem? he', π, hπ⟩
  · rintro (rfl | ⟨e', he', π, hπ⟩)
    · exact ⟨[], at?_nil _⟩
    · obtain ⟨i, hi⟩ := List.mem_iff_getElem?.mp he'
      exact ⟨i :: π, by rw [at?_cons, hi, Option.bind_some, hπ]⟩

theorem Expr.hasEmptySequence_of_ne {e : Expr} (h : e ≠ .sequence []) :
    e.HasEmptySequence ↔ ∃ e' ∈ e.operands, e'.HasEmptySequence :=
  hasEmptySequence_iff.trans (or_iff_right h)

private theorem widensCases (cells : CellTable) :
    LoweringCases cells (fun e a _ b => Widens a b e.HasEmptySequence)
      (fun es a xs b => xs.length = es.length ∧ Widens a b (∃ e ∈ es, e.HasEmptySequence)) where
  leaf {e n a} he := by
    cases e with
    | num value | bool value | pointer label info | jumpValue =>
        obtain rfl := Option.some.inj he
        refine (Widens.addOther (by simp) (by simp)).congr ?_
        rw [Expr.hasEmptySequence_of_ne (by simp)]
        simp [Expr.operands]
    | _ => cases he
  load _ := by
    refine (Cell.widens_load _ _).congr ?_
    rw [Expr.hasEmptySequence_of_ne (by simp)]
    simp [Expr.operands]
  call _ ih := (ih.2.extend (.borrowCall _ _ _ _ _)).congr
    (Expr.hasEmptySequence_of_ne (e := .call ..) (by simp)).symm
  procCall _ ih := (ih.2.extend (.addOther (by simp) (by simp))).congr
    (Expr.hasEmptySequence_of_ne (e := .procCall ..) (by simp)).symm
  field _ ih := by
    refine (ih.extend (.addOther (by simp) (by simp))).congr ?_
    rw [Expr.hasEmptySequence_of_ne (e := .field ..) (by simp)]
    simp [Expr.operands]
  sequence {items a b ids} _ ih := by
    have hitems : Node.sequence ids = .sequence [] ↔ Expr.sequence items = .sequence [] := by
      rw [Node.sequence.injEq, Expr.sequence.injEq, ← List.length_eq_zero_iff, ih.1,
        List.length_eq_zero_iff]
    refine (ih.2.trans (.add (n := .sequence ids) (by simp))).congr ?_
    rw [Expr.hasEmptySequence_iff, hitems, or_comm]
    rfl
  nil {a} := ⟨rfl, (Widens.refl a).congr (by simp)⟩
  cons _ _ ih ihs := ⟨by simp [ihs.1], (ih.trans ihs.2).congr (by simp)⟩

theorem widens_of_lowerExpr {e : Expr} {a b : Arena} {x : ExprId}
    (h : lowerExpr cells e a = .ok (x, b)) : Widens a b e.HasEmptySequence :=
  (widensCases cells).of_lowerExpr h

/-! ## Statements -/

/-- Whether a sequence without items is part of the expression of a statement. -/
def Stmt.HasEmptySequence (st : Stmt) : Prop :=
  ∃ e, st.value? = some e ∧ e.HasEmptySequence

theorem Evaluates.widens {st : Stmt} {a b : Arena} {x : ExprId} (h : Evaluates cells st a x b) :
    Widens a b st.HasEmptySequence := by
  cases h with
  | expr h => exact (widens_of_lowerExpr h).congr (by simp [Stmt.HasEmptySequence, Stmt.value?])
  | init _ h =>
      exact ((widens_of_lowerExpr h).extend (.addStore _ _ _)).congr
        (by simp [Stmt.HasEmptySequence, Stmt.value?])
  | assign _ h =>
      exact ((widens_of_lowerExpr h).extend (Cell.widens_assign _ _ _)).congr
        (by simp [Stmt.HasEmptySequence, Stmt.value?])

theorem Carries.widens {value : Option Expr} {a b : Arena} {x : Option ExprId}
    (h : Carries cells value a x b) : Widens a b (∃ e, value = some e ∧ e.HasEmptySequence) := by
  cases h with
  | nothing => exact (Widens.refl a).congr (by simp)
  | value h => exact (widens_of_lowerExpr h).congr (by simp)

theorem widens_foldl_release (cs : List Cell) : ∀ (p : Procedure),
    Widens p.arena (cs.foldl Procedure.release p).arena False := by
  induction cs with
  | nil => exact fun p => .refl p.arena
  | cons c cs ih =>
      intro p
      have hrelease : Widens p.arena (p.release c).arena False :=
        (Widens.addOther (n := .cell c) (by simp) (by simp)).extend (.addOther (by simp) (by simp))
      exact hrelease.extend (ih (p.release c))

theorem Emits.widens {m m' : Emission} {st : Stmt} (h : Emits s cells m st m') :
    Widens m.procedure.arena m'.procedure.arena st.HasEmptySequence := by
  cases h with
  | evaluate h => exact h.widens
  | label name =>
      have harena : ((m.label name).2.emit (.label (m.label name).1)).procedure.arena =
          m.procedure.arena := by
        show (m.label name).2.procedure.arena = _
        rw [m.label_procedure name]
      rw [harena]
      exact (Widens.refl _).congr (by simp [Stmt.HasEmptySequence, Stmt.value?])
  | jump target mode h => exact h.widens
  | stackEmpty => exact (Widens.refl _).congr (by simp [Stmt.HasEmptySequence, Stmt.value?])
  | exit hst _ =>
      refine (widens_foldl_release (s.exits st) m.procedure).congr (iff_of_false not_false ?_)
      rcases hst with ⟨name, rfl⟩ | rfl <;> simp [Stmt.HasEmptySequence, Stmt.value?]

theorem Emitted.widens {m m' : Emission} {ss : List Stmt} (h : Emitted s cells m ss m') :
    Widens m.procedure.arena m'.procedure.arena (∃ st ∈ ss, st.HasEmptySequence) := by
  induction h with
  | nil => exact (Widens.refl _).congr (by simp)
  | concat _ hstep ih => exact (ih.trans hstep.widens).congr (by simp [or_and_right, exists_or])

/-! ## Scripts -/

theorem exists_at?_eq_emptySequence :
    (∃ π, s.at? π = some (.sequence [])) ↔ ∃ st ∈ s.body, st.HasEmptySequence := by
  constructor
  · rintro ⟨_ | ⟨k, π⟩, hπ⟩
    · cases hπ
    · obtain ⟨st, hst, hπ⟩ := Option.bind_eq_some_iff.mp hπ
      obtain ⟨e, he, hπ⟩ := Option.bind_eq_some_iff.mp hπ
      exact ⟨st, List.mem_of_getElem? hst, e, he, π, hπ⟩
  · rintro ⟨st, hst, e, he, π, hπ⟩
    obtain ⟨k, hk⟩ := List.mem_iff_getElem?.mp hst
    exact ⟨k :: π, Option.bind_eq_some_iff.mpr ⟨st, hk, Option.bind_eq_some_iff.mpr ⟨e, he, hπ⟩⟩⟩

theorem widens_of_lower {p : Procedure} (h : s.lower = .ok p) :
    Widens {} p.arena (∃ π, s.at? π = some (.sequence [])) := by
  obtain ⟨d, m, hd, hrun, rfl⟩ := emitted_of_lower h
  have harena : d.procedure.arena = {} := by
    rw [(declares_of_declared hd).procedure_eq]
    rfl
  rw [← harena]
  exact hrun.widens.congr exists_at?_eq_emptySequence.symm

/-- The nodes of a lowered procedure have the operands their kinds call for. Each of its sequences
has a last item, whose value it takes, exactly if the script has no empty sequence. -/
theorem fitsKinds_of_lower {p : Procedure} (h : s.lower = .ok p) : p.arena.FitsKinds ∧
    ((∀ e items, p.arena.get? e = some (.sequence items) → ∃ x, items.getLast? = some x) ↔
      ∀ π, s.at? π ≠ some (.sequence [])) := by
  have hwidens := widens_of_lower h
  refine ⟨⟨fun {e n k} _ hk => ?_, hwidens.storesToCells (by simp [StoresToCells, get?])⟩, ?_⟩
  · cases n <;> cases hk <;> rfl
  · have hempty : p.arena.HasEmptySequence ↔ ∃ π, s.at? π = some (.sequence []) := by
      rw [hwidens.hasEmptySequence_iff]
      simp [HasEmptySequence, get?]
    rw [← not_exists, ← hempty]
    constructor
    · rintro hlast ⟨e, he⟩
      obtain ⟨x, hx⟩ := hlast e [] he
      cases hx
    · intro hnone e items he
      cases items with
      | nil => exact absurd ⟨e, he⟩ hnone
      | cons x items => exact ⟨_, List.getLast?_cons⟩

/-- A local is initialized with the last item of a sequence, behind a call that borrows. -/
def initInSequence : Script where
  header := {}
  cells := [⟨"x", .localVar, none, false, false, false⟩]
  body := [.store "x" (.sequence [.call "f" 1 false [.num 7], .bool true]) true]

/-- The store fits, and both its sequence and that of the call have a value. -/
theorem fitsKinds_initInSequence : ∃ p, initInSequence.lower = .ok p ∧ p.arena.FitsKinds ∧
    ∀ e items, p.arena.get? e = some (.sequence items) → ∃ x, items.getLast? = some x := by
  obtain ⟨p, hp⟩ : ∃ p, initInSequence.lower = .ok p :=
    (stopsAt_faults (by decide)).exists_ok_iff.mpr (by decide)
  obtain ⟨hfits, hlast⟩ := fitsKinds_of_lower hp
  refine ⟨p, hp, hfits, hlast.mpr fun π hπ => ?_⟩
  obtain ⟨st, hst, e, he, hempty⟩ := exists_at?_eq_emptySequence.mp ⟨π, hπ⟩
  obtain rfl := List.mem_singleton.mp hst
  obtain rfl := Option.some.inj he
  simp [Expr.hasEmptySequence_of_ne, Expr.operands] at hempty

/-- A script that evaluates a sequence without items. -/
def evaluatesNothing : Script where
  header := {}
  cells := []
  body := [.expr (.sequence [])]

/-- Its sequence has no item to take a value from. -/
theorem valueless_evaluatesNothing : ¬∀ p, evaluatesNothing.lower = .ok p →
    ∀ e items, p.arena.get? e = some (.sequence items) → 1 ≤ items.length := by
  intro hvalued
  have h : evaluatesNothing.lower =
      .ok { id := 0, arena := ⟨#[.sequence []]⟩, body := #[.expr 0] } := by rfl
  exact absurd (hvalued _ h 0 [] rfl) (by decide)

end Script

end StackIR
