import StackIR.Proofs.CellWrites
import StackIR.Proofs.ExactLinking
import StackIR.Proofs.Outlining

/-!
# Traversals come to an end

Every traversal of a procedure follows operands and looks into tables of the procedure. It cannot
miss a node or an entry in a procedure that is made by the calls that build one, each handed only
expressions that are there (`Procedure.Made`): operands stand before their nodes, so every
traversal ends, and what is looked up is in its table (`Procedure.traversable_of_made`). The handles
and names of labels are not restricted.
-/

namespace StackIR

open Relation

/-- Whether a node has a single operand that traversals go on to. -/
def Node.isWrapper : Node → Bool
  | .shared _ | .retain _ | .release _ | .field .. => true
  | _ => false

namespace Arena

variable {a : Arena}

/-! ## Traversals of expressions -/

theorem exists_isStateless? (uses : UseTracker) {e : ExprId} (he : e < a.size) :
    ∃ b, a.isStateless? uses e = some b := by
  obtain ⟨n, hn⟩ := exists_get?_of_lt he
  exact ⟨_, by rw [isStateless?, hn, Option.map_some]⟩

theorem OperandsPrecede.exists_mayWriteCells? (h : a.OperandsPrecede) (uses : UseTracker)
    {e : ExprId} (he : e < a.size) : ∃ b, a.mayWriteCells? uses e = some b := by
  obtain ⟨b, hb, -⟩ := h.exists_mayWriteCells?_iff uses he
  exact ⟨b, hb⟩

end Arena

namespace Procedure

variable {p q : Procedure}

/-! ## Calls -/

/-- One call that builds a procedure. The expressions it is handed are in the arena. -/
inductive Call (p : Procedure) : Procedure → Prop where
  | nest (parent : Option ProcId) (isRoot : Bool) : Call p { p with parent, isRoot }
  | addArgument (d : Declaration) : Call p (p.addArgument d).2
  | addLocal (d : Declaration) : Call p (p.addLocal d).2
  | addCaptured (d : Declaration) : Call p (p.addCaptured d).2
  | newLabel (base : String) : Call p (p.newLabel base).2
  | node (n : Node) (hn : n.isShared = false) (hops : ∀ x ∈ n.operands, x < p.arena.size) :
      Call p (p.build (·.add n)).2
  | share (e : ExprId) (he : e < p.arena.size) : Call p (p.build (·.share e)).2
  | borrowCall (name : String) (mask : BitVec 32) (isAsync : Bool) (args : List ExprId)
      (hargs : ∀ x ∈ args, x < p.arena.size) :
      Call p (p.build (·.borrowCall name mask isAsync args)).2
  | load (c : Cell) : Call p (p.build c.load).2
  | storeSlot (c : Cell) (value : ExprId) (hvalue : value < p.arena.size) :
      Call p (p.build (c.storeSlot value)).2
  | assign (c : Cell) (value : ExprId) (hvalue : value < p.arena.size) :
      Call p (p.build (c.assign value)).2
  | emit (s : Stmt) (hs : ∀ e, s.expr? = some e → e < p.arena.size) : Call p (p.emit s)
  /-- A cell that cannot be released leaves the procedure as it is. -/
  | releaseCell (c : Cell) : Call p ((releaseCell c).run p).2
  | releaseAll : Call p (releaseAll.run p).2

/-- The procedure is made by calls from one that has only an id and a name. -/
def Made (p : Procedure) : Prop :=
  ∃ id name, ReflTransGen Call { id, name } p

/-- What a call does is done in steps. Only the release of all cells relies on the calls before. -/
theorem Call.buildsTo (h : p.Call q) (hp : p.WellFormed) : p.BuildsTo q := by
  cases h with
  | nest parent isRoot => exact ReflTransGen.single (.nest parent isRoot)
  | addArgument d => exact ReflTransGen.single (.addArgument d)
  | addLocal d => exact ReflTransGen.single (.addLocal d)
  | addCaptured d => exact ReflTransGen.single (.addCaptured d)
  | newLabel base => exact ReflTransGen.single (.newLabel base)
  | node n hn hops => exact buildsTo_build (Arena.buildsTo_add hn hops)
  | share e he => exact buildsTo_build (ReflTransGen.single (.share e he))
  | borrowCall name mask isAsync args hargs =>
      exact buildsTo_build (Arena.buildsTo_borrowCall name mask isAsync hargs)
  | load c => exact buildsTo_build (c.buildsTo_load p.arena)
  | storeSlot c value hvalue => exact buildsTo_build (c.buildsTo_storeSlot hvalue)
  | assign c value hvalue => exact buildsTo_build (c.buildsTo_assign hvalue)
  | emit s hs => exact buildsTo_emit hs
  | releaseCell c =>
      rw [releaseCell_run]
      split
      · dsimp only
        split
        · exact buildsTo_release p c
        · exact ReflTransGen.refl
      · exact ReflTransGen.refl
  | releaseAll =>
      rw [releaseAll_run hp.isOwned]
      exact buildsTo_foldl_release p.releasable p

theorem Made.built (h : p.Made) : p.Built := by
  obtain ⟨id, name, hcalls⟩ := h
  refine ⟨id, name, ?_⟩
  induction hcalls with
  | refl => exact ReflTransGen.refl
  | tail _ hcall ih => exact ih.trans (hcall.buildsTo (Built.wellFormed ⟨id, name, ih⟩))

/-! ## Traversals of bodies -/

/-- A walk looks up only nodes that are there. -/
theorem lt_of_mem_walk {visits : Array Visit} (h : p.walk = some visits) :
    ∀ x, .expr x ∈ visits → x < p.arena.size :=
  of_mem_walk (fun _ _ _ hx => Arena.lt_size_of_get? hx)
    (fun _ _ _ _ _ he => Arena.lt_size_of_get? he) h

/-- Every traversal of the procedure ends, and finds in the arena and in the tables of labels all
that it looks up. -/
structure Traversable (p : Procedure) : Prop where
  operandsPrecede : p.arena.OperandsPrecede
  roots_lt : ∀ s ∈ p.body.toList, ∀ e, s.expr? = some e → e < p.arena.size
  wrapper_operand : ∀ e n, p.arena.get? e = some n → n.isWrapper = true → n.operands.length = 1
  walk_ends : ∃ visits, p.walk = some visits ∧ ∀ e, .expr e ∈ visits → e < p.arena.size
  isStateless_ends : ∀ uses e, e < p.arena.size → ∃ b, p.arena.isStateless? uses e = some b
  mayWriteCells_ends : ∀ uses e, e < p.arena.size → ∃ b, p.arena.mayWriteCells? uses e = some b
  dump_ends : ∃ text, p.dump = some text
  /-- Linking ends with a linkage or an error in a label or a jump. -/
  link_ends : p.link ≠ .error .danglingOperand
  /-- While the statements are entered one by one, there is a placement for each label. -/
  placements_size : ∀ (k : Nat) (placed : Array (Option Nat)),
    (p.body.toList.take k).zipIdx.foldlM p.placeLabel (Array.replicate p.labels.size none) =
      .ok placed → placed.size = p.labels.size
  /-- A label that some jump finds has a count of incoming jumps, whether or not all jumps do. -/
  target_lt : ∀ placed, p.placements = .ok placed → ∀ i target l,
    p.findTarget placed (p.placedByName placed) i target = .ok l → l < p.labels.size
  linked_dump_ends : ∀ r, p.link = .ok r → ∃ text, r.dump = some text
  /-- In a linked procedure each statement that places a label finds the label's count. -/
  label_lt : ∀ r, p.link = .ok r → ∀ l, .label l ∈ p.body.toList → l < r.linkage.incoming.size

/-- Whatever calls make a procedure, no traversal of it misses what it looks for. -/
theorem traversable_of_made (h : p.Made) : p.Traversable := by
  have hbuilt := h.built
  have hwalk := hbuilt.wellFormed.toWalkable
  have hnamed := hbuilt.labelsNamed
  constructor
  case operandsPrecede => exact hwalk.operandsPrecede
  case roots_lt => exact hwalk.roots_lt
  case wrapper_operand =>
    intro e n _ hn
    cases n with
    | shared x | retain x | release x | field x _ => rfl
    | _ => cases hn
  case walk_ends =>
    obtain ⟨t, ht, -⟩ := hwalk.exists_visits
    exact ⟨_, ht, lt_of_mem_walk ht⟩
  case isStateless_ends => exact fun uses e he => Arena.exists_isStateless? uses he
  case mayWriteCells_ends =>
    exact fun uses e he => hwalk.operandsPrecede.exists_mayWriteCells? uses he
  case dump_ends => exact hwalk.exists_dumpWith none
  case link_ends => exact hwalk.link_ne_danglingOperand
  case placements_size =>
    intro k placed hplaced
    rcases p.foldlM_placeLabel_spec (p.body.toList.take k) with
      ⟨placed', hok, hplaces⟩ | ⟨error, herror, -⟩
    · rw [hok] at hplaced
      exact Except.ok.inj hplaced ▸ hplaces.size_eq
    · rw [herror] at hplaced
      cases hplaced
  case target_lt =>
    intro placed hplaced i target l hl
    have hplaces := places_of_placements hplaced
    exact hplaces.lt_of_denotes ((findTarget_eq_ok hplaces hnamed).mp hl).2
  case linked_dump_ends =>
    intro r hr
    obtain ⟨text, htext⟩ := hwalk.exists_dumpWith (some r.linkage)
    refine ⟨text, ?_⟩
    rw [LinkedProcedure.dump, (linksExactly_of_link hnamed hr).procedure_eq]
    exact htext
  case label_lt =>
    intro r hr l hl
    obtain ⟨i, hi⟩ := List.mem_iff_getElem?.mp hl
    obtain ⟨placed, targets, uses, -, -, -, rfl⟩ := link_eq_ok.mp hr
    rw [size_countIncoming]
    exact (linkable_of_link hnamed hr).made i l (by simpa using hi)

/-- A procedure with a borrowing call that places a label that was never made. -/
def unfinished : Procedure where
  id := 0
  arena := ⟨#[.literal (.int 7), .jumpValue, .shared 1, .release 2, .runtimeCall "f" false [0, 2],
    .shared 4, .sequence [5, 3, 5]]⟩
  body := #[.expr 6, .label 5]

theorem unfinished_made : unfinished.Made := by
  have hempty : ReflTransGen Call { id := 0 } ({ id := 0 } : Procedure) := ReflTransGen.refl
  have hargs := (hempty.tail (.node (.literal (.int 7)) rfl (by simp [Node.operands]))).tail
    (.node .jumpValue rfl (by simp [Node.operands]))
  have hcall := hargs.tail (.borrowCall "f" 2 false [0, 1] (by decide))
  exact ⟨0, none, (hcall.tail (.emit (.expr 6) (by decide))).tail (.emit (.label 5) (by decide))⟩

/-- Its label is not in the table, and yet it is dumped and linking it ends, with an error. -/
theorem traversable_unfinished : unfinished.labels.size = 0 ∧ unfinished.arena.size = 7 ∧
    Stmt.label 5 ∈ unfinished.body.toList ∧ (∃ text, unfinished.dump = some text) ∧
      ∃ error, unfinished.link = .error error ∧ error ≠ .danglingOperand := by
  have h := traversable_of_made unfinished_made
  have hmem : Stmt.label 5 ∈ unfinished.body.toList := by decide
  refine ⟨by decide, by decide, hmem, h.dump_ends, ?_⟩
  cases hlink : unfinished.link with
  | error error =>
      exact ⟨error, rfl, fun herror => h.link_ends (hlink.trans (congrArg _ herror))⟩
  | ok r =>
      have hlt := h.label_lt r hlink 5 hmem
      obtain ⟨placed, targets, uses, -, -, -, rfl⟩ := link_eq_ok.mp hlink
      rw [size_countIncoming] at hlt
      exact absurd hlt (by decide)

end Procedure

end StackIR
