import StackIR.Proofs.Built
import StackIR.Proofs.JumpsByName
import StackIR.Proofs.Translation

/-!
# Renaming the cells of a procedure

The name of a cell is there for dumps. Renaming the cells translates arenas
(`Arena.translates_renameCells`), so before an operation on them it comes to the same as after it.

Linking looks at no name, as long as no jump goes by one. Whatever the cells and the labels of a
procedure are called, it finds the same, or it fails in the same way at the same statement
(`Procedure.RenamesTo.linkage_eq`).
-/

namespace StackIR

/-! ## Runs up to their errors -/

section Errors

variable {ε ε' α β : Type} {k : ε → ε'}

theorem mapError_bind (x : Except ε α) (g : α → Except ε β) :
    (x >>= g).mapError k = x.mapError k >>= fun a => (g a).mapError k := by
  cases x <;> rfl

theorem mapError_foldlM {g g' : β → α → Except ε β}
    (h : ∀ b x, (g b x).mapError k = (g' b x).mapError k) (xs : List α) :
    ∀ b, (xs.foldlM g b).mapError k = (xs.foldlM g' b).mapError k := by
  induction xs with
  | nil => exact fun _ => rfl
  | cons x xs ih =>
      intro b
      rw [List.foldlM_cons, List.foldlM_cons, mapError_bind, mapError_bind, h b x]
      exact bind_congr ih

theorem mapError_mapM {g g' : α → Except ε β} {xs : List α}
    (h : ∀ x ∈ xs, (g x).mapError k = (g' x).mapError k) :
    (xs.mapM g).mapError k = (xs.mapM g').mapError k := by
  induction xs with
  | nil => rfl
  | cons x xs ih =>
      obtain ⟨hx, hxs⟩ := List.forall_mem_cons.mp h
      rw [List.mapM_cons, List.mapM_cons, mapError_bind, mapError_bind, hx]
      refine bind_congr fun y => ?_
      rw [mapError_bind, mapError_bind, ih hxs]

end Errors

/-! ## Names -/

/-- The error without the names in it. -/
def LinkError.unnamed : LinkError → LinkError
  | .undefinedLabel _ jump => .undefinedLabel "" jump
  | .duplicateLabel _ stmt => .duplicateLabel "" stmt
  | error => error

section Cells

variable (f : String → String)

def Cell.rename (c : Cell) : Cell :=
  { c with name := c.name.map f }

def Arena.renameCells (a : Arena) : Arena :=
  ⟨a.nodes.map (Node.map id (Cell.rename f))⟩

/-- The procedure with its cells renamed, at their declaration and wherever they are used. -/
def Procedure.renameCells (p : Procedure) : Procedure :=
  { p with
    args := p.args.map (Cell.rename f)
    locals := p.locals.map (Cell.rename f)
    captured := p.captured.map (Cell.rename f)
    arena := p.arena.renameCells f }

@[simp] theorem Cell.unnamed_rename (c : Cell) : (c.rename f).unnamed = c.unnamed := rfl

@[simp] theorem Cell.isOwned_rename (c : Cell) : (c.rename f).isOwned = c.isOwned := rfl

@[simp] theorem Cell.isManaged_rename (c : Cell) : (c.rename f).isManaged = c.isManaged := rfl

@[simp] theorem Node.unnamed_map_rename (n : Node) :
    (n.map id (Cell.rename f)).unnamed = n.unnamed := by
  cases n <;> simp [Node.map, Node.unnamed]

/-! ## Arenas -/

namespace Arena

variable (a : Arena)

@[simp] theorem size_renameCells : (a.renameCells f).size = a.size := by
  simp [renameCells, size]

@[simp] theorem get?_renameCells (e : ExprId) :
    (a.renameCells f).get? e = (a.get? e).map (Node.map id (Cell.rename f)) := by
  simp [renameCells, get?]

theorem translates_renameCells : Translates id (Cell.rename f) (renameCells f) where
  add_eq a n := by simp [add, renameCells, size]
  isReusable_eq a e := by simp [isReusable, Option.any_map]
  isBoxed_eq _ := rfl
  refCounted_eq _ := rfl

/-- A walk looks at no cell. -/
theorem walk_renameCells (e : ExprId) : ∀ t, (a.renameCells f).walk e t = a.walk e t := by
  induction e using Nat.strong_induction_on with
  | _ e ih =>
      intro t
      unfold walk
      rw [get?_renameCells]
      cases a.get? e with
      | none => rfl
      | some n =>
          simp only [Option.map_some, Node.isShared_map, Node.operands_map, List.map_id]
          have hoperand : (fun (t : Trail) (x : ExprId) =>
              if x < e then (a.renameCells f).walk x t else none) =
                fun t x => if x < e then a.walk x t else none := by
            funext t x
            split
            next hx => exact ih x hx t
            next => rfl
          rw [hoperand]

end Arena

/-! ## Procedures -/

namespace Procedure

/-- The second procedure is the first with its cells renamed. Its labels are as many, and they may
go by any names. -/
structure RenamesTo (p q : Procedure) : Prop where
  eq : q = { p.renameCells f with labels := q.labels }
  size_labels : q.labels.size = p.labels.size

variable {f} {p q : Procedure}

namespace RenamesTo

theorem emit (h : p.RenamesTo f q) (s : Stmt) : (p.emit s).RenamesTo f (q.emit s) where
  eq := congrArg (fun q => q.emit s) h.eq
  size_labels := h.size_labels

theorem build (h : p.RenamesTo f q) (arena : Arena) :
    RenamesTo f { p with arena } { q with arena := arena.renameCells f } where
  eq := congrArg (fun q => { q with arena := arena.renameCells f }) h.eq
  size_labels := h.size_labels

theorem arena_eq (h : p.RenamesTo f q) : q.arena = p.arena.renameCells f :=
  congrArg Procedure.arena h.eq

theorem body_eq (h : p.RenamesTo f q) : q.body = p.body :=
  (congrArg Procedure.body h.eq).trans rfl

theorem locals_eq (h : p.RenamesTo f q) : q.locals = p.locals.map (Cell.rename f) :=
  congrArg Procedure.locals h.eq

theorem args_eq (h : p.RenamesTo f q) : q.args = p.args.map (Cell.rename f) :=
  congrArg Procedure.args h.eq

theorem isRoot_eq (h : p.RenamesTo f q) : q.isRoot = p.isRoot :=
  (congrArg Procedure.isRoot h.eq).trans rfl

theorem newLabel (h : p.RenamesTo f q) (base base' : String) :
    (q.newLabel base').1 = (p.newLabel base).1 ∧
      (p.newLabel base).2.RenamesTo f (q.newLabel base').2 := by
  refine ⟨h.size_labels,
    congrArg (fun r => { r with labels := (q.newLabel base').2.labels }) h.eq, ?_⟩
  simp [Procedure.newLabel, h.size_labels]

theorem release (h : p.RenamesTo f q) (c : Cell) :
    (p.release c).RenamesTo f (q.release (c.rename f)) := by
  have hadded : ((q.arena.add (.cell (c.rename f))).2.add (.release q.arena.size)).2 =
      ((p.arena.add (.cell c)).2.add (.release p.arena.size)).2.renameCells f := by
    simp [h.arena_eq, Arena.add, Arena.renameCells, Arena.size, Node.map]
  unfold Procedure.release
  rw [hadded, h.arena_eq, Arena.size_renameCells]
  exact (h.build _).emit _

theorem foldl_release (cs : List Cell) : ∀ {p q : Procedure}, p.RenamesTo f q →
    (cs.foldl Procedure.release p).RenamesTo f
      ((cs.map (Cell.rename f)).foldl Procedure.release q) := by
  induction cs with
  | nil => exact fun h => h
  | cons c cs ih => exact fun h => ih (h.release c)

theorem isOwned (h : p.RenamesTo f q)
    (hp : ∀ c, c ∈ p.locals ∨ c ∈ p.args → c.isOwned = true) :
    ∀ c, c ∈ q.locals ∨ c ∈ q.args → c.isOwned = true := by
  rw [h.locals_eq, h.args_eq]
  simp only [Array.mem_map]
  rintro c (⟨d, hd, rfl⟩ | ⟨d, hd, rfl⟩)
  · exact hp d (Or.inl hd)
  · exact hp d (Or.inr hd)

theorem releasable_eq (h : p.RenamesTo f q) :
    q.releasable = p.releasable.map (Cell.rename f) := by
  unfold releasable
  rw [h.isRoot_eq, h.locals_eq, h.args_eq]
  cases p.isRoot with
  | true => rfl
  | false => simp [List.filter_map, Function.comp_def]

end RenamesTo

/-! ## Linking -/

/-- No jump of the procedure gives the name of its label. -/
def JumpsByHandle (p : Procedure) : Prop :=
  ∀ name mode value, Stmt.jump (.name name) mode value ∉ p.body

namespace RenamesTo

theorem sharedUses?_eq (h : p.RenamesTo f q) : q.sharedUses? = p.sharedUses? := by
  have hcount : q.countShared = p.countShared := by
    funext counts visit
    cases visit with
    | stmt i => rfl
    | expr e => simp [countShared, h.arena_eq, Option.any_map]
  have hwalk : q.walk = p.walk := by
    unfold walk walkStmt
    rw [h.body_eq, h.arena_eq]
    simp only [Arena.walk_renameCells]
  unfold sharedUses?
  rw [hcount, hwalk]

theorem placements_eq (h : p.RenamesTo f q) :
    q.placements.mapError LinkError.unnamed = p.placements.mapError LinkError.unnamed := by
  unfold placements
  rw [h.body_eq, h.size_labels]
  refine mapError_foldlM ?_ _ _
  rintro placed ⟨s, i⟩
  cases s with
  | label l =>
      simp only [placeLabel]
      cases placed[l]? with
      | none => rfl
      | some at? => cases at? <;> rfl
  | _ => rfl

theorem findTargets_eq (h : p.RenamesTo f q) (hp : p.JumpsByHandle)
    (placed : Array (Option Nat)) :
    (q.findTargets placed).mapError LinkError.unnamed =
      (p.findTargets placed).mapError LinkError.unnamed := by
  have hstmt : ∀ s ∈ p.body.toList.zipIdx,
      (q.findStmtTarget placed (q.placedByName placed) s).mapError LinkError.unnamed =
        (p.findStmtTarget placed (p.placedByName placed) s).mapError LinkError.unnamed := by
    rintro ⟨s, i⟩ hs
    cases s with
    | jump t mode value =>
        cases t with
        | label l =>
            simp only [findStmtTarget, findTarget]
            cases placed[l]? with
            | none => rfl
            | some at? => cases at? <;> rfl
        | name name =>
            have hmem := List.mem_of_getElem? (List.mem_zipIdx_iff_getElem?.mp hs)
            exact absurd (Array.mem_toList_iff.mp hmem) (hp name mode value)
    | _ => rfl
  unfold findTargets
  rw [h.body_eq]
  simp only [map_eq_pure_bind, mapError_bind, mapError_mapM hstmt]

theorem linkage_eq (h : p.RenamesTo f q) (hp : p.JumpsByHandle) :
    q.linkage.mapError LinkError.unnamed = p.linkage.mapError LinkError.unnamed := by
  unfold linkage
  rw [mapError_bind, mapError_bind, h.placements_eq]
  refine bind_congr fun placed => ?_
  rw [mapError_bind, mapError_bind, h.findTargets_eq hp]
  refine bind_congr fun targets => ?_
  rw [h.sharedUses?_eq]
  unfold countIncoming
  rw [h.size_labels]

theorem exists_link (h : p.RenamesTo f q) (hp : p.JumpsByHandle) {r : LinkedProcedure}
    (hr : p.link = .ok r) : ∃ r', q.link = .ok r' ∧ r'.linkage = r.linkage := by
  have hsame := h.linkage_eq hp
  rw [linkage_of_link hr] at hsame
  cases hq : q.linkage with
  | error error =>
      rw [hq] at hsame
      cases hsame
  | ok linkage =>
      rw [hq] at hsame
      obtain rfl := Except.ok.inj hsame
      exact ⟨⟨q, r.linkage⟩, by rw [link_eq, hq]; rfl, rfl⟩

theorem exists_link_eq_error (h : p.RenamesTo f q) (hp : p.JumpsByHandle) {error : LinkError}
    (hr : p.link = .error error) :
    ∃ error', q.link = .error error' ∧ error'.unnamed = error.unnamed := by
  have hsame := h.linkage_eq hp
  rw [link_eq] at hr
  rw [link_eq]
  cases hlinkage : p.linkage with
  | ok linkage =>
      rw [hlinkage] at hr
      cases hr
  | error error' =>
      rw [hlinkage] at hr hsame
      obtain rfl := Except.error.inj hr
      cases hq : q.linkage with
      | ok linkage =>
          rw [hq] at hsame
          cases hsame
      | error error =>
          rw [hq] at hsame
          exact ⟨error, rfl, Except.error.inj hsame⟩

end RenamesTo

/-- Two procedures are the same but for the names of their cells and labels. -/
structure SameUpToNames (p q : Procedure) : Prop where
  header_eq : q.id = p.id ∧ q.name = p.name ∧ q.parent = p.parent ∧ q.isRoot = p.isRoot
  body_eq : q.body = p.body
  nodes_eq : q.arena.nodes.map Node.unnamed = p.arena.nodes.map Node.unnamed
  args_eq : q.args.map Cell.unnamed = p.args.map Cell.unnamed
  locals_eq : q.locals.map Cell.unnamed = p.locals.map Cell.unnamed
  captured_eq : q.captured.map Cell.unnamed = p.captured.map Cell.unnamed
  size_labels : q.labels.size = p.labels.size

theorem RenamesTo.sameUpToNames (h : p.RenamesTo f q) : p.SameUpToNames q := by
  obtain ⟨heq, hsize⟩ := h
  rw [heq] at hsize ⊢
  refine ⟨⟨rfl, rfl, rfl, rfl⟩, rfl, ?_, ?_, ?_, ?_, hsize⟩ <;>
    simp [renameCells, Arena.renameCells, Function.comp_def]

end Procedure

end Cells

end StackIR
