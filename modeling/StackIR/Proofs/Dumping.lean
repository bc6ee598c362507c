import Mathlib.Algebra.Order.BigOperators.Group.Finset
import StackIR.Proofs.Rearranging
import StackIR.Proofs.References

/-!
# Dumps and walks

A dump is made of pieces of text (`Procedure.dumpPieces`). A piece that shows a statement or a node
says which; the others stand between or behind. The pieces show what the walk meets, in the same
order (`Procedure.dumpsAsWalked_of_built`), and the pieces of a shared node in the dump of a linked
procedure are its text in full with the number of its uses, and then a back-reference for each
further use. That only the first piece is in full is `Arena.enters_outline`, and the number of
pieces is that of the visits, which linking counts.
-/

namespace StackIR

/-- A piece of the text of a dump. -/
structure Piece where
  /-- The statement or node that the text shows, up to its operands. -/
  visit? : Option Visit
  text : String
deriving DecidableEq

/-! ## Pieces of an outline -/

namespace Outline

mutual

/-- What is written for an outline: for each node the text up to its operands, and what stands
between and behind them. -/
def pieces (uses : ExprId → Option Nat) : Outline → List Piece
  | .again e => [⟨some (.expr e), "@" ++ e.repr⟩]
  | .full e n operands =>
    match n.atom? with
    | some s => [⟨some (.expr e), s⟩]
    | none =>
      ⟨some (.expr e), "(" ++ n.head e (uses e)⟩ :: (operandPieces uses operands ++ [⟨none, ")"⟩])

/-- What is written for operands, each after a blank. -/
def operandPieces (uses : ExprId → Option Nat) : List Outline → List Piece
  | [] => []
  | o :: os => ⟨none, " "⟩ :: (o.pieces uses ++ operandPieces uses os)

end

end Outline

/-- The text of pieces. -/
def joined (ps : List Piece) : String :=
  String.join (ps.map (·.text))

theorem joined_cons (q : Piece) (ps : List Piece) : joined (q :: ps) = q.text ++ joined ps := by
  simp [joined]

theorem joined_append (ps qs : List Piece) : joined (ps ++ qs) = joined ps ++ joined qs := by
  simp [joined]

theorem joined_singleton (q : Piece) : joined [q] = q.text := by
  simp [joined]

namespace Outline

mutual

/-- The text of an outline is that of its pieces. -/
theorem text_eq (uses : ExprId → Option Nat) : (o : Outline) → o.text uses = joined (o.pieces uses)
  | .again e => by rw [text, pieces, joined_singleton]
  | .full e n operands => by
      rw [text, pieces]
      cases n.atom? with
      | some s =>
          dsimp only
          rw [joined_singleton]
      | none =>
          dsimp only
          rw [joined_cons, joined_append, joined_singleton, operandsText_eq]
          simp only [String.append_assoc]

theorem operandsText_eq (uses : ExprId → Option Nat) :
    (os : List Outline) → operandsText uses os = joined (operandPieces uses os)
  | [] => rfl
  | o :: os => by
      rw [operandsText, operandPieces, joined_cons, joined_append, text_eq, operandsText_eq]
      simp only [String.append_assoc]

end

end Outline

/-- What the pieces show. -/
def shownBy (ps : List Piece) : List Visit :=
  ps.filterMap (·.visit?)

theorem shownBy_append (ps qs : List Piece) : shownBy (ps ++ qs) = shownBy ps ++ shownBy qs :=
  List.filterMap_append

/-- The pieces that show a node. -/
def piecesAt (v : ExprId) (ps : List Piece) : List Piece :=
  ps.filter fun q => q.visit? = some (.expr v)

theorem piecesAt_append (v : ExprId) (ps qs : List Piece) :
    piecesAt v (ps ++ qs) = piecesAt v ps ++ piecesAt v qs :=
  List.filter_append ..

/-- The piece for a reference to a shared node with the given number of uses. -/
def sharedPiece (v : ExprId) (uses : Nat) (enters : Bool) : Piece :=
  ⟨some (.expr v),
    if enters then "(shared#" ++ v.repr ++ " x" ++ uses.repr else "@" ++ v.repr⟩

theorem piecesAt_enclosed (v e : ExprId) (text : String) (ps : List Piece) :
    piecesAt v (⟨some (.expr e), text⟩ :: (ps ++ [⟨none, ")"⟩])) =
      (if e = v then [⟨some (.expr e), text⟩] else []) ++ piecesAt v ps := by
  by_cases hev : e = v <;> simp [piecesAt, hev]

theorem enters_full (released : Bool) (e : ExprId) (n : Node) (os : List Outline) (v : ExprId) :
    enters ((Outline.full e n os).references released) v =
      (if e = v then [true] else []) ++
        enters (Outline.referencesOf (released || n.isRelease) os) v := by
  by_cases hev : e = v <;> simp [Outline.references, enters, hev]

/-- The text of a shared node up to its operand. -/
theorem sharedPiece_true (v x : ExprId) (uses : Nat) :
    sharedPiece v uses true =
      ⟨some (.expr v), "(" ++ (Node.shared x).head v (some uses)⟩ := by
  have htext : "(" ++ (Node.shared x).head v (some uses) =
      "(shared#" ++ v.repr ++ " x" ++ uses.repr := by
    simp only [Node.head, ← String.append_assoc]
    rfl
  rw [htext]
  rfl

theorem Node.operands_of_atom? {n : Node} {s : String} (h : n.atom? = some s) :
    n.operands = [] := by
  cases n with
  | literal _ | pointer _ _ | cell _ | jumpValue => rfl
  | _ => cases h

namespace Arena

variable {a : Arena}

private theorem shownCases (a : Arena) (uses : ExprId → Option Nat) : OutlineCases a
    (fun _ _ o _ => shownBy (o.pieces uses) = o.nodes.map .expr)
    (fun _ _ os _ => shownBy (Outline.operandPieces uses os) = (Outline.nodesOf os).map .expr) where
  again _ _ _ := rfl
  full {e n shown shown' os} he _ _ hos ih := by
    rw [Outline.pieces, Outline.nodes, List.map_cons]
    cases hatom : n.atom? with
    | some s =>
        rw [Node.operands_of_atom? hatom, outlineOperands_nil] at hos
        obtain ⟨rfl, -⟩ := Prod.mk.injEq .. |>.mp (Option.some.inj hos)
        rfl
    | none =>
        rw [← ih]
        simp [shownBy]
  nil := rfl
  cons {x xs shown s shown' o os} _ hx hxs := by
    rw [Outline.operandPieces, Outline.nodesOf, List.map_append, ← hx, ← hxs, ← shownBy_append]
    rfl

private theorem sharedCases (a : Arena) {v : ExprId} (hv : a.isShared v = true)
    {uses : ExprId → Option Nat} {k : Nat} (hk : uses v = some k) : OutlineCases a
    (fun _ _ o _ => ∀ released, piecesAt v (o.pieces uses) =
      (enters (o.references released) v).map (sharedPiece v k))
    (fun _ _ os _ => ∀ released, piecesAt v (Outline.operandPieces uses os) =
      (enters (Outline.referencesOf released os) v).map (sharedPiece v k)) where
  again {e n shown} _ _ _ := by
    intro released
    by_cases hev : e = v
    · subst hev
      simp [Outline.pieces, Outline.references, piecesAt, enters, sharedPiece]
    · simp [Outline.pieces, Outline.references, piecesAt, enters, hev]
  full {e n shown shown' os} he _ _ hos ih := by
    intro released
    rw [Outline.pieces, enters_full, List.map_append, ← ih]
    cases hatom : n.atom? with
    | some s =>
        -- A node without operands is not the shared node.
        have hev : e ≠ v := by
          rintro rfl
          obtain ⟨x, hx⟩ := exists_of_isShared hv
          obtain rfl := Option.some.inj (he.symm.trans hx)
          cases hatom
        rw [Node.operands_of_atom? hatom, outlineOperands_nil] at hos
        obtain ⟨rfl, -⟩ := Prod.mk.injEq .. |>.mp (Option.some.inj hos)
        simp [Outline.operandPieces, piecesAt, hev]
    | none =>
        dsimp only
        rw [piecesAt_enclosed]
        by_cases hev : e = v
        · subst hev
          obtain ⟨x, hx⟩ := exists_of_isShared hv
          obtain rfl := Option.some.inj (he.symm.trans hx)
          rw [if_pos rfl, if_pos rfl, hk, List.map_singleton, sharedPiece_true e x]
        · rw [if_neg hev, if_neg hev, List.map_nil]
  nil := fun _ => rfl
  cons {x xs shown s shown' o os} _ hx hxs := by
    intro released
    rw [Outline.referencesOf, enters_append, List.map_append, ← hx, ← hxs, ← piecesAt_append]
    rfl

/-- The pieces of an outline that show a shared node: its text in full where the outline enters it,
and back-references everywhere else. -/
theorem piecesAt_outline {v : ExprId} (hv : a.isShared v = true) {uses : ExprId → Option Nat}
    {k : Nat} (hk : uses v = some k) {e : ExprId} {shown shown' : Shown} {o : Outline}
    (h : a.outline e shown = some (o, shown')) :
    piecesAt v (o.pieces uses) =
      (firstOnly (shown.contains v) (o.nodes.count v)).map (sharedPiece v k) := by
  rw [(sharedCases a hv hk).of_outline h false, enters_outline hv h]

theorem shownBy_outline {e : ExprId} {shown shown' : Shown} {o : Outline}
    (h : a.outline e shown = some (o, shown')) (uses : ExprId → Option Nat) :
    shownBy (o.pieces uses) = o.nodes.map .expr :=
  (shownCases a uses).of_outline h

end Arena

/-! ## Pieces of a body -/

namespace Procedure

/-- What is written for a statement: the line up to its expression, the expression, and the end of
the line. -/
def stmtPieces (p : Procedure) (link? : Option Linkage) (s : Stmt × Option Outline) (i : Nat) :
    List Piece :=
  ⟨some (.stmt i), columnText i ++ "  " ++ p.stmtText link? i s.1 none⟩ ::
    (s.2.elim [] (Outline.pieces fun e => link?.bind (·.sharedUses[e]?)) ++ [⟨none, "\n"⟩])

/-- What is written for statements, the first at position `i`. -/
def bodyPieces (p : Procedure) (link? : Option Linkage) (i : Nat) (ss : List Stmt)
    (trees : List (Option Outline)) : List Piece :=
  ((ss.zip trees).zipIdx i).flatMap fun (s, j) => p.stmtPieces link? s j

/-- What a dump is made of: the lines before the statements, and the pieces of the statements. -/
def dumpPieces (p : Procedure) (link? : Option Linkage) (trees : List (Option Outline)) :
    List Piece :=
  ⟨none, String.join ((p.dumpLines link? []).map (· ++ "\n"))⟩ ::
    p.bodyPieces link? 0 p.body.toList trees

variable {p : Procedure} {link? : Option Linkage}

theorem bodyPieces_cons (i : Nat) (s : Stmt) (ss : List Stmt) (o? : Option Outline)
    (trees : List (Option Outline)) :
    p.bodyPieces link? i (s :: ss) (o? :: trees) =
      p.stmtPieces link? (s, o?) i ++ p.bodyPieces link? (i + 1) ss trees := rfl

/-- Only the text of an expression depends on its outline. -/
theorem stmtText_eq (p : Procedure) (link? : Option Linkage) (i : Nat) {s : Stmt}
    {o? : Option Outline} (h : s.expr? = none → o? = none) :
    p.stmtText link? i s o? = p.stmtText link? i s none ++
      joined (o?.elim [] (Outline.pieces fun e => link?.bind (·.sharedUses[e]?))) := by
  cases o? with
  | none => simp [joined]
  | some o =>
      dsimp only [Option.elim_some]
      rw [← Outline.text_eq]
      cases s with
      | expr e => simp [stmtText]
      | jump target mode value =>
          cases value with
          | none => cases h rfl
          | some e => simp [stmtText, String.append_assoc]
      | label l | stackEmpty => cases h rfl

theorem joined_stmtPieces {s : Stmt} {o? : Option Outline} (h : s.expr? = none → o? = none)
    (i : Nat) : joined (p.stmtPieces link? (s, o?) i) =
      columnText i ++ "  " ++ p.stmtText link? i s o? ++ "\n" := by
  rw [stmtPieces, joined_cons, joined_append, joined_singleton, stmtText_eq p link? i h]
  simp only [String.append_assoc]

theorem shownBy_stmtPieces {s : Stmt} {o? : Option Outline} {shown shown' : Shown}
    (h : p.arena.outlineStmt s shown = some (o?, shown')) (i : Nat) :
    shownBy (p.stmtPieces link? (s, o?) i) = .stmt i :: (stmtNodes o?).map .expr := by
  have hexpr : shownBy (o?.elim [] (Outline.pieces fun e => link?.bind (·.sharedUses[e]?))) =
      (stmtNodes o?).map .expr := by
    cases he : s.expr? with
    | none =>
        obtain ⟨rfl, -⟩ := Arena.of_outlineStmt_none he h
        rfl
    | some e =>
        obtain ⟨o, rfl, ho⟩ := Arena.of_outlineStmt_some he h
        exact Arena.shownBy_outline ho _
  rw [← hexpr]
  simp [stmtPieces, shownBy]

theorem piecesAt_stmtPieces {link : Linkage} {v : ExprId} (hv : p.arena.isShared v = true) {k : Nat}
    (hk : link.sharedUses[v]? = some k) {s : Stmt} {o? : Option Outline} {shown shown' : Shown}
    (h : p.arena.outlineStmt s shown = some (o?, shown')) (i : Nat) :
    piecesAt v (p.stmtPieces (some link) (s, o?) i) =
        (firstOnly (shown.contains v) ((stmtNodes o?).count v)).map (sharedPiece v k) ∧
      shown'.contains v = (shown.contains v || decide (0 < (stmtNodes o?).count v)) := by
  have hpieces : piecesAt v (p.stmtPieces (some link) (s, o?) i) =
      piecesAt v (o?.elim [] (Outline.pieces fun e => (some link).bind (·.sharedUses[e]?))) := by
    simp [stmtPieces, piecesAt]
  rw [hpieces]
  cases he : s.expr? with
  | none =>
      obtain ⟨rfl, rfl⟩ := Arena.of_outlineStmt_none he h
      simp [stmtNodes, firstOnly, piecesAt]
  | some e =>
      obtain ⟨o, rfl, ho⟩ := Arena.of_outlineStmt_some he h
      refine ⟨Arena.piecesAt_outline hv hk ho, ?_⟩
      rw [Bool.eq_iff_iff, Bool.or_eq_true, decide_eq_true_eq, List.count_pos_iff]
      exact Arena.contains_outline hv ho

/-- What is written for statements that have been outlined, the first at position `i`. -/
structure Shows (p : Procedure) (link? : Option Linkage) (i : Nat) (ss : List Stmt)
    (trees : List (Option Outline)) (shown : Shown) : Prop where
  joined_eq : joined (p.bodyPieces link? i ss trees) =
    String.join ((((ss.zip trees).zipIdx i).map fun ((s, o?), j) =>
      columnText j ++ "  " ++ p.stmtText link? j s o?).map (· ++ "\n"))
  shownBy_eq : shownBy (p.bodyPieces link? i ss trees) = visitsFrom i trees
  piecesAt_eq : ∀ {link : Linkage} {v : ExprId} {k : Nat}, link? = some link →
    p.arena.isShared v = true → link.sharedUses[v]? = some k →
    piecesAt v (p.bodyPieces link? i ss trees) =
      (firstOnly (shown.contains v) ((trees.flatMap stmtNodes).count v)).map (sharedPiece v k)

theorem shows_of_outlines {ss : List Stmt} {trees : List (Option Outline)} {shown shown' : Shown}
    (h : ss.mapM p.arena.outlineStmt shown = some (trees, shown')) (i : Nat) :
    p.Shows link? i ss trees shown := by
  induction ss generalizing i trees shown with
  | nil =>
      obtain ⟨rfl, rfl⟩ := Prod.mk.injEq .. |>.mp (Option.some.inj h)
      exact ⟨rfl, rfl, fun _ _ _ => rfl⟩
  | cons s ss ih =>
      obtain ⟨o?, shown₁, os, hs, hss, rfl⟩ := Arena.outlineStmts_cons_eq_some h
      obtain ⟨hjoined, hshown, hpieces⟩ := ih hss (i + 1)
      constructor
      case joined_eq =>
        have hnone : s.expr? = none → o? = none := fun he => (Arena.of_outlineStmt_none he hs).1
        rw [bodyPieces_cons, joined_append, hjoined, joined_stmtPieces hnone, List.zip_cons_cons,
          List.zipIdx_cons, List.map_cons, List.map_cons, String.join_cons]
      case shownBy_eq =>
        rw [bodyPieces_cons, shownBy_append, hshown, shownBy_stmtPieces hs, visitsFrom,
          List.cons_append]
      case piecesAt_eq =>
        intro link v k hlink hv hk
        subst hlink
        obtain ⟨hfirst, hcontains⟩ := piecesAt_stmtPieces hv hk hs i
        rw [bodyPieces_cons, piecesAt_append, hfirst, hpieces rfl hv hk, hcontains,
          ← List.map_append, firstOnly_append, List.flatMap_cons, List.count_append]

/-! ## Reachable nodes -/

/-- The nodes that a statement of the body refers to, itself or through other nodes. -/
inductive Reaches (p : Procedure) : ExprId → Prop where
  | root {s : Stmt} {e : ExprId} : s ∈ p.body.toList → s.expr? = some e → Reaches p e
  | operand {e x : ExprId} {n : Node} : Reaches p e → p.arena.get? e = some n → x ∈ n.operands →
    Reaches p x

/-- What the body reaches is visited. -/
theorem IsVisits.pos_of_reaches {visits : ExprId → Nat} (h : p.IsVisits visits)
    (hp : p.Walkable) {e : ExprId} (he : p.Reaches e) : e < p.arena.size ∧ 0 < visits e := by
  have hvisits := isVisits_iff.mp h
  induction he with
  | @root s e hs he =>
      have hlt := hp.roots_lt s hs e he
      have hroot : 0 < p.roots.count e :=
        List.count_pos_iff.mpr (List.mem_filterMap.mpr ⟨s, hs, he⟩)
      have heq := hvisits e hlt
      exact ⟨hlt, by omega⟩
  | @operand u x n _ hu hx ih =>
      obtain ⟨hlt, hpos⟩ := ih
      have hxlt := Nat.lt_trans (hp.operandsPrecede u n hu x hx) hlt
      have hentries : 0 < p.arena.entries visits u := by
        unfold Arena.entries
        rw [if_pos hpos]
        split
        · exact Nat.one_pos
        · exact hpos
      have hcount : 0 < p.arena.operandCount u x := by
        rw [Arena.operandCount_eq hu]
        exact List.count_pos_iff.mpr hx
      have hinflow : p.arena.entries visits u * p.arena.operandCount u x ≤
          p.arena.inflow visits x :=
        Finset.single_le_sum (f := fun u => p.arena.entries visits u * p.arena.operandCount u x)
          (fun _ _ => Nat.zero_le _) (Finset.mem_range.mpr hlt)
      have hmul := Nat.mul_pos hentries hcount
      have heq := hvisits x hxlt
      exact ⟨hxlt, by omega⟩

/-! ## Dumps -/

/-- The dumps of a procedure show what the walk meets. The dump of the linked procedure shows each
shared node that the body reaches once in full, with the number of its uses, at the first place
that refers to it, and as a back-reference at every other place. -/
structure DumpsAsWalked (p : Procedure) (trees : List (Option Outline)) (visits : Array Visit) :
    Prop where
  walk_eq : p.walk = some visits
  dump_eq : ∀ link?, p.dumpWith link? = some (joined (p.dumpPieces link? trees))
  shownBy_eq : ∀ link?, shownBy (p.dumpPieces link? trees) = visits.toList
  linked_dump_eq : ∀ r, p.link = .ok r → r.dump = some (joined (p.dumpPieces r.linkage trees))
  piecesAt_eq : ∀ r, p.link = .ok r → ∀ e, p.Reaches e → p.arena.isShared e = true →
    0 < r.totalUses e ∧ piecesAt e (p.dumpPieces r.linkage trees) =
      ⟨some (.expr e), "(shared#" ++ e.repr ++ " x" ++ (r.totalUses e).repr⟩ ::
        List.replicate (r.totalUses e - 1) ⟨some (.expr e), "@" ++ e.repr⟩

theorem exists_outlineStmts {trees : List (Option Outline)} (h : p.outlines = some trees) :
    ∃ shown, p.body.toList.mapM p.arena.outlineStmt ∅ = some (trees, shown) := by
  obtain ⟨⟨trees', shown⟩, hrun, rfl⟩ := Option.map_eq_some_iff.mp h
  exact ⟨shown, hrun⟩

/-- The lines before the statements do not depend on what linking found. -/
theorem dumpLines_eq (p : Procedure) (link? : Option Linkage) (trees : List (Option Outline)) :
    p.dumpLines link? trees = p.dumpLines none [] ++
      (p.body.toList.zip trees).zipIdx.map fun ((s, o?), i) =>
        columnText i ++ "  " ++ p.stmtText link? i s o? := by
  simp [dumpLines]

theorem length_dumpLines_nil (p : Procedure) : (p.dumpLines none []).length = 4 := by
  simp [dumpLines]

/-- What is made of the `i`-th entry stands `i` places behind the head. -/
theorem getElem?_append_map_zipIdx {α β : Type} (head : List β) (xs : List α) (f : α × Nat → β)
    (i : Nat) : (head ++ xs.zipIdx.map f)[head.length + i]? = xs[i]?.map fun x => f (x, i) := by
  rw [List.getElem?_append_right (Nat.le_add_right _ _), Nat.add_sub_cancel_left,
    List.getElem?_map, List.getElem?_zipIdx, Nat.zero_add, Option.map_map]
  rfl

theorem dumpWith_eq {trees : List (Option Outline)} {shown : Shown}
    (htrees : p.outlines = some trees) (h : p.Shows link? 0 p.body.toList trees shown) :
    p.dumpWith link? = some (joined (p.dumpPieces link? trees)) := by
  have hhead : p.dumpLines none [] = p.dumpLines link? [] := by simp [dumpLines]
  rw [dumpWith, htrees, Option.map_some, dumpPieces, joined_cons, h.joined_eq, dumpLines_eq,
    List.map_append, String.join_append, hhead]

/-- The pieces of a shared node that the walk meets in a linked procedure. -/
theorem Shows.piecesAt_dumpPieces {trees : List (Option Outline)} {link : Linkage}
    (h : p.Shows (some link) 0 p.body.toList trees ∅) {e : ExprId}
    (he : p.arena.isShared e = true) {k : Nat} (hk : link.sharedUses[e]? = some (k + 1))
    (hcount : (trees.flatMap stmtNodes).count e = k + 1) :
    piecesAt e (p.dumpPieces (some link) trees) =
      ⟨some (.expr e), "(shared#" ++ e.repr ++ " x" ++ (k + 1).repr⟩ ::
        List.replicate k ⟨some (.expr e), "@" ++ e.repr⟩ := by
  refine (h.piecesAt_eq rfl he hk).trans ?_
  rw [Std.HashSet.contains_empty, hcount, firstOnly, List.map_cons, List.map_replicate]
  rfl

/-- Dumping and walking go through a procedure alike, whatever was built. -/
theorem dumpsAsWalked_of_built {p : Procedure} (h : p.Built) :
    ∃ trees visits, p.outlines = some trees ∧ p.DumpsAsWalked trees visits := by
  have hwalk := h.wellFormed.toWalkable
  obtain ⟨trees, htrees⟩ := hwalk.exists_outlines
  obtain ⟨shown, houtlines⟩ := exists_outlineStmts htrees
  have hshows : ∀ link?, p.Shows link? 0 p.body.toList trees ∅ := fun _ =>
    shows_of_outlines houtlines 0
  have hvisits := hwalk.isVisits_of_outlines htrees
  refine ⟨trees, (visitsFrom 0 trees).toArray, htrees, ?_⟩
  constructor
  case walk_eq => rw [p.walk_eq_outlines, htrees, Option.map_some]
  case dump_eq => exact fun link? => dumpWith_eq htrees (hshows link?)
  case shownBy_eq => exact fun link? => (hshows link?).shownBy_eq
  case linked_dump_eq =>
    intro r hr
    obtain ⟨_, _, _, -, -, -, rfl⟩ := link_eq_ok.mp hr
    exact dumpWith_eq htrees (hshows _)
  case piecesAt_eq =>
    intro r hr e hreach he
    have hpos := (hvisits.pos_of_reaches hwalk hreach).2
    have htotal := hwalk.totalUses_eq hr hvisits e
    rw [if_pos he, count_visitsFrom] at htotal
    rw [count_visitsFrom] at hpos
    obtain ⟨k, hk⟩ := Nat.exists_eq_succ_of_ne_zero (Nat.ne_of_gt hpos)
    rw [hk] at htotal
    have huses : r.linkage.sharedUses[e]? = some (k + 1) := by
      rw [LinkedProcedure.totalUses, Std.HashMap.getD_eq_getD_getElem?] at htotal
      cases huses : r.linkage.sharedUses[e]? with
      | none =>
          rw [huses] at htotal
          cases htotal
      | some uses =>
          rw [huses] at htotal
          exact congrArg some htotal
    rw [htotal]
    exact ⟨Nat.succ_pos k, (hshows _).piecesAt_dumpPieces he huses hk⟩

/-- The shared call is shown in full under the field, which comes first, and the two other uses of
it, one by a later statement, are back-references. -/
theorem dumpsAsWalked_nestedSharing :
    nestedSharing.Built ∧ ∃ trees visits r, nestedSharing.outlines = some trees ∧
      nestedSharing.DumpsAsWalked trees visits ∧ nestedSharing.link = .ok r ∧
      piecesAt 1 (nestedSharing.dumpPieces r.linkage trees) =
        [⟨some (.expr 1), "(shared#1 x3"⟩, ⟨some (.expr 1), "@1"⟩, ⟨some (.expr 1), "@1"⟩] := by
  have hwalk := nestedSharing_built.wellFormed.toWalkable
  obtain ⟨uses, -, huses, -⟩ := hwalk.exists_sharedUses
  have hlink := link_eq_ok.mpr ⟨#[], #[none, none], uses, rfl, rfl, huses, rfl⟩
  obtain ⟨trees, visits, htrees, hdumps⟩ := dumpsAsWalked_of_built nestedSharing_built
  have hvisits : nestedSharing.IsVisits fun e => #[1, 3, 1, 2, 1].getD e 0 := by
    unfold IsVisits
    decide
  have hreach : nestedSharing.Reaches 1 := .root (s := .expr 1) (by decide) rfl
  have htotal := hwalk.totalUses_eq hlink hvisits 1
  rw [if_pos (by decide)] at htotal
  have hpieces := (hdumps.piecesAt_eq _ hlink 1 hreach (by decide)).2
  rw [htotal] at hpieces
  exact ⟨nestedSharing_built, trees, visits, _, htrees, hdumps, hlink, hpieces⟩

end Procedure

end StackIR
