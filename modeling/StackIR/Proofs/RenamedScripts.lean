import Mathlib.Data.List.Find
import Mathlib.Logic.Equiv.Basic
import StackIR.Proofs.ControlFlow
import StackIR.Proofs.Faults
import StackIR.Proofs.Renaming

/-!
# Renaming a script

A script names its cells and its labels, and lowering finds both by their names. What the names are
makes no difference as long as different ones stay different (`Script.lower_rename`): the renamed
script comes to the same procedure up to names, which links in the same way, and where the script
cannot be lowered, the renamed one fails with the same error under the new name. Names that do not
occur may well be mixed up (`Renaming.Separates`).

The two scripts are lowered side by side, and `Agree` relates the two outcomes of each part:

- both declare the same ids, and what one table finds under a name the other finds, renamed, under
  the new name (`agree_declared`, `cellNamed_rename`);
- an expression comes to the same nodes with renamed cells (`renames_lowerExpr`), since renaming
  cells translates arenas;
- both make a label at the same statement, so it has the same handle, and the bodies stay the same
  (`agree_lower`).
-/

namespace StackIR.Script

/-! ## Renamed scripts -/

/-- New names for cells and for labels. -/
structure Renaming where
  cell : String → String
  label : String → String

mutual

def Expr.rename (f : String → String) : Expr → Expr
  | .num value => .num value
  | .bool value => .bool value
  | .pointer label info => .pointer label info
  | .load name => .load (f name)
  | .call name mask isAsync args => .call name mask isAsync (Expr.renameEach f args)
  | .procCall callee isAsync args => .procCall callee isAsync (Expr.renameEach f args)
  | .field e index => .field (e.rename f) index
  | .sequence items => .sequence (Expr.renameEach f items)
  | .jumpValue => .jumpValue

def Expr.renameEach (f : String → String) : List Expr → List Expr
  | [] => []
  | e :: es => e.rename f :: Expr.renameEach f es

end

def Stmt.rename (ρ : Renaming) : Stmt → Stmt
  | .expr e => .expr (e.rename ρ.cell)
  | .store cell value isInit => .store (ρ.cell cell) (value.rename ρ.cell) isInit
  | .label name => .label (ρ.label name)
  | .jump target mode value => .jump (ρ.label target) mode (value.map (Expr.rename ρ.cell))
  | .stackEmpty => .stackEmpty
  | .clear cell => .clear (ρ.cell cell)
  | .clearAll => .clearAll

def CellSpec.rename (f : String → String) (spec : CellSpec) : CellSpec :=
  { spec with name := f spec.name }

/-- The script with the names of its cells and labels replaced wherever they stand. -/
def rename (s : Script) (ρ : Renaming) : Script where
  header := s.header
  cells := s.cells.map (CellSpec.rename ρ.cell)
  body := s.body.map (Stmt.rename ρ)

/-- The second error is the first with the cell in it renamed. Of a cell that cannot be released,
`stray?`, the errors have the texts. -/
inductive LowerError.RenamesTo (f : String → String) (stray? : Option Cell) :
    LowerError → LowerError → Prop
  | unknownCell (name : String) : RenamesTo f stray? (.unknownCell name) (.unknownCell (f name))
  | duplicateCell (name : String) :
      RenamesTo f stray? (.duplicateCell name) (.duplicateCell (f name))
  | duplicateDecl (decl : DeclId) (name : String) :
      RenamesTo f stray? (.duplicateDecl decl name) (.duplicateDecl decl (f name))
  | release {c : Cell} (h : stray? = some c) : RenamesTo f stray? (.release (.notOwned c.text))
      (.release (.notOwned (c.rename f).text))

/-- The cell that a statement releases and the frame does not own. -/
def Stmt.strayCell? (s : Script) : Stmt → Option Cell
  | .clear name => (s.cellNamed name).filter fun c => !c.isOwned
  | _ => none

/-- The first cell that one of the statements releases and the frame does not own. -/
def strayCell? (s : Script) (ss : List Stmt) : Option Cell :=
  ss.findSome? (Stmt.strayCell? s)

/-- The script declares a cell of this name, or a statement mentions one. -/
def NamesCell (s : Script) (name : String) : Prop :=
  (∃ spec ∈ s.cells, spec.name = name) ∨
    ∃ st ∈ s.body, .access name ∈ st.mentions ∨ .clear name ∈ st.mentions

/-! ## Two runs side by side -/

/-- Two computations both succeed, with related results, or both fail, with the same error but for
the name of the cell in it. -/
inductive Agree (f : String → String) (stray? : Option Cell) {α β : Type} (R : α → β → Prop) :
    Except LowerError α → Except LowerError β → Prop where
  | ok {v : α} {w : β} (h : R v w) : Agree f stray? R (.ok v) (.ok w)
  | error {error error' : LowerError} (h : error.RenamesTo f stray? error') :
      Agree f stray? R (.error error) (.error error')

namespace Agree

variable {f : String → String} {stray? : Option Cell} {α α' β β' : Type} {R : α → α' → Prop}
  {S : β → β' → Prop} {y : Except LowerError α'}

theorem bind {x : Except LowerError α} {g : α → Except LowerError β}
    {g' : α' → Except LowerError β'} (h : Agree f stray? R x y)
    (hg : ∀ v w, x = .ok v → y = .ok w → R v w → Agree f stray? S (g v) (g' w)) :
    Agree f stray? S (x >>= g) (y >>= g') := by
  cases h with
  | ok hvw => exact hg _ _ rfl rfl hvw
  | error herror => exact .error herror

theorem exists_error {error : LowerError} (h : Agree f stray? R (.error error) y) :
    ∃ error', y = .error error' ∧ error.RenamesTo f stray? error' := by
  cases h with
  | error herror => exact ⟨_, rfl, herror⟩

theorem exists_ok {v : α} (h : Agree f stray? R (.ok v) y) : ∃ w, y = .ok w ∧ R v w := by
  cases h with
  | ok h => exact ⟨_, rfl, h⟩

end Agree

/-- On renamed cells `y` does what `x` does, but that its result is moved, and the arena it leaves
is the renamed one. -/
def Renames (f : String → String) {α β : Type} (move : α → β)
    (x : StateT Arena (Except LowerError) α) (y : StateT Arena (Except LowerError) β) : Prop :=
  ∀ stray? a, Agree f stray? (fun r r' => r' = Prod.map move (Arena.renameCells f) r) (x a)
    (y (a.renameCells f))

namespace Renames

variable {f : String → String} {α α' β β' : Type}

theorem pure {move : α → α'} (v : α) : Renames f move (pure v) (pure (move v)) :=
  fun _ _ => .ok rfl

theorem modifyGet {g g' : Arena → ExprId × Arena}
    (h : ∀ a, g' (a.renameCells f) = Prod.map id (Arena.renameCells f) (g a)) :
    Renames f id (modifyGet g) (modifyGet g') :=
  fun _ a => .ok (h a)

theorem bind {move : α → α'} {move' : β → β'} {x : StateT Arena (Except LowerError) α}
    {y : StateT Arena (Except LowerError) α'} {g : α → StateT Arena (Except LowerError) β}
    {g' : α' → StateT Arena (Except LowerError) β'} (hx : Renames f move x y)
    (hg : ∀ v, Renames f move' (g v) (g' (move v))) : Renames f move' (x >>= g) (y >>= g') := by
  intro stray? a
  refine Agree.bind (hx stray? a) ?_
  rintro ⟨v, b⟩ _ - - rfl
  exact hg v stray? b

end Renames

/-! ## Expressions -/

section Expressions

/-- What the first table finds under a name, the second finds, renamed, under the new name. -/
def FindsRenamed (f : String → String) (cells cells' : CellTable) (name : String) : Prop :=
  cells'[f name]? = cells[name]?.map (Cell.rename f)

variable {f : String → String} {cells cells' : CellTable}

theorem agree_findCell {stray? : Option Cell} {name : String}
    (h : FindsRenamed f cells cells' name) :
    Agree f stray? (fun c c' => c' = c.rename f) (findCell cells name)
      (findCell cells' (f name)) := by
  unfold findCell
  rw [h]
  cases cells[name]? with
  | none => exact .error (.unknownCell name)
  | some c => exact .ok rfl

theorem renames_findCell {name : String} (h : FindsRenamed f cells cells' name) :
    Renames f (Cell.rename f) (liftM (findCell cells name)) (liftM (findCell cells' (f name))) := by
  intro stray? a
  refine Agree.bind (agree_findCell h) ?_
  rintro c _ - - rfl
  exact .ok rfl

mutual

/-- With its cells renamed, an expression comes to the same nodes on renamed cells. -/
theorem renames_lowerExpr : ∀ e : Expr,
    (∀ name ∈ e.loads, FindsRenamed f cells cells' name) →
      Renames f id (lowerExpr cells e) (lowerExpr cells' (e.rename f))
  | .num _, _ | .bool _, _ | .pointer .., _ | .jumpValue, _ =>
      .modifyGet fun a => (Arena.translates_renameCells f).add a rfl
  | .load name, h => (renames_findCell (h name List.mem_cons_self)).bind fun c =>
      .modifyGet ((Arena.translates_renameCells f).load c)
  | .call name mask isAsync args, h => (renames_lowerExprs args h).bind fun ids =>
      .modifyGet fun a => (Arena.translates_renameCells f).borrowCall a name mask isAsync ids
  | .procCall _ _ args, h => (renames_lowerExprs args h).bind fun _ =>
      .modifyGet fun a => (Arena.translates_renameCells f).add a rfl
  | .field e _, h => (renames_lowerExpr e h).bind fun _ =>
      .modifyGet fun a => (Arena.translates_renameCells f).add a rfl
  | .sequence items, h => (renames_lowerExprs items h).bind fun _ =>
      .modifyGet fun a => (Arena.translates_renameCells f).add a rfl

theorem renames_lowerExprs : ∀ es : List Expr,
    (∀ name ∈ Expr.loadsOfEach es, FindsRenamed f cells cells' name) →
      Renames f (List.map id) (lowerExprs cells es) (lowerExprs cells' (Expr.renameEach f es))
  | [], _ => .pure []
  | e :: es, h =>
      (renames_lowerExpr e fun name hname => h name (List.mem_append_left _ hname)).bind fun x =>
        (renames_lowerExprs es fun name hname => h name (List.mem_append_right _ hname)).bind
          fun xs => .pure (x :: xs)

end

end Expressions

/-! ## Cells -/

section Cells

variable {f : String → String}

theorem cellsOf_rename (specs : List CellSpec) :
    cellsOf (specs.map (CellSpec.rename f)) = (cellsOf specs).map (Cell.rename f) := by
  induction specs using List.reverseRecOn with
  | nil => rfl
  | append_singleton specs spec ih =>
      rw [List.map_append, List.map_singleton, cellsOf_concat, cellsOf_concat, ih, List.map_append,
        List.length_map, List.countP_map]
      rfl

theorem cellsIn_rename (specs : List CellSpec) (storage : Storage) :
    cellsIn (specs.map (CellSpec.rename f)) storage =
      (cellsIn specs storage).map (Cell.rename f) := by
  unfold cellsIn
  rw [cellsOf_rename, List.filter_map]
  rfl

/-- A cell is found under its new name, as no other cell that is looked for has got that name. -/
theorem cellNamed_rename {ρ : Renaming} {s : Script} {N : Set String} (hρ : Set.InjOn ρ.cell N)
    (hs : ∀ spec ∈ s.cells, spec.name ∈ N) {name : String} (hname : name ∈ N) :
    (s.rename ρ).cellNamed (ρ.cell name) = (s.cellNamed name).map (Cell.rename ρ.cell) := by
  have hsame : ∀ c ∈ s.allCells,
      decide ((c.rename ρ.cell).name = some (ρ.cell name)) = decide (c.name = some name) := by
    intro c hc
    have hmem : c.name ∈ s.cells.map fun spec => some spec.name := by
      rw [← map_name_cellsOf]
      exact List.mem_map_of_mem hc
    obtain ⟨spec, hspec, hcname⟩ := List.mem_map.mp hmem
    have hiff : ρ.cell spec.name = ρ.cell name ↔ spec.name = name :=
      hρ.eq_iff (hs spec hspec) hname
    simp [Cell.rename, ← hcname, hiff]
  unfold cellNamed
  rw [show (s.rename ρ).allCells = s.allCells.map (Cell.rename ρ.cell) from cellsOf_rename s.cells,
    List.find?_map]
  exact congrArg _ (List.find?_congr hsame)

/-- The cells of a script are declared under their new names, or the same one cannot be. -/
theorem agree_declared {ρ : Renaming} {s : Script} {N : Set String} (hρ : Set.InjOn ρ.cell N)
    (hs : ∀ spec ∈ s.cells, spec.name ∈ N) (stray? : Option Cell) :
    Agree ρ.cell stray? (fun d d' => d'.decls = d.decls) s.declared (s.rename ρ).declared := by
  obtain ⟨header, specs, body⟩ := s
  -- From the last cell, since the cells before it decide whether it can be declared.
  induction specs using List.reverseRecOn with
  | nil => exact .ok rfl
  | append_singleton specs spec ih =>
      have hspecs : ∀ x ∈ specs, x.name ∈ N := fun x hx => hs x (List.mem_append_left _ hx)
      have hspec : spec.name ∈ N := hs spec (by simp)
      simp only [rename, List.map_append, List.map_singleton, declared_concat]
      refine (ih hspecs).bind fun d d' hd hd' hdecls => ?_
      have hsame : d'.cells.contains (ρ.cell spec.name) = d.cells.contains spec.name := by
        rw [Std.HashMap.contains_eq_isSome_getElem?, Std.HashMap.contains_eq_isSome_getElem?,
          getElem?_cells_eq hd, getElem?_cells_eq hd', cellNamed_rename hρ hspecs hspec,
          Option.isSome_map]
      have hdecl : ((spec.rename ρ.cell).declaration specs.length).decl =
          (spec.declaration specs.length).decl := rfl
      have hname : (spec.rename ρ.cell).name = ρ.cell spec.name := rfl
      rw [List.length_map, declare_eq, declare_eq, hdecl, hdecls, hname, hsame]
      cases d.decls.contains (spec.declaration specs.length).decl with
      | true => exact .error (.duplicateDecl ..)
      | false =>
          cases d.cells.contains spec.name with
          | true => exact .error (.duplicateCell _)
          | false =>
              refine .ok ?_
              rw [decls_declareFresh, decls_declareFresh, hdecl, hdecls]

/-- What two scripts that are declared come to, if one is the other renamed. -/
theorem renamesTo_declared {ρ : Renaming} {s : Script} {d d' : Declared} (hd : s.declared = .ok d)
    (hd' : (s.rename ρ).declared = .ok d') : d.procedure.RenamesTo ρ.cell d'.procedure := by
  have harena : s.header.procedure.arena.renameCells ρ.cell = s.header.procedure.arena := by
    simp [Header.procedure, Arena.renameCells]
  rw [(declares_of_declared hd).procedure_eq, (declares_of_declared hd').procedure_eq]
  refine ⟨?_, rfl⟩
  simp only [rename, cellsIn_rename, Procedure.renameCells, List.map_toArray, harena]

end Cells

/-! ## Statements -/

/-- The second emission is the first with its cells renamed, and it finds each label of the script
under the new name. -/
structure Emission.RenamesTo (s : Script) (ρ : Renaming) (m m' : Emission) : Prop where
  procedure : m.procedure.RenamesTo ρ.cell m'.procedure
  labels_eq : ∀ name, s.Mentions name → m'.labels[ρ.label name]? = m.labels[name]?

section Statements

variable {s : Script} {ρ : Renaming} {stray? : Option Cell} {m m' : Emission}

namespace Emission.RenamesTo

theorem emit (h : m.RenamesTo s ρ m') (st : StackIR.Stmt) :
    (m.emit st).RenamesTo s ρ (m'.emit st) :=
  ⟨h.procedure.emit st, h.labels_eq⟩

theorem withArena (h : m.RenamesTo s ρ m') (arena : Arena) :
    (m.withArena arena).RenamesTo s ρ (m'.withArena (arena.renameCells ρ.cell)) :=
  ⟨h.procedure.build arena, h.labels_eq⟩

/-- A label has the same handle under its new name, whether it was made before or not. -/
theorem exists_label (h : m.RenamesTo s ρ m') (hρ : Set.InjOn ρ.label {name | s.Mentions name})
    {name : String} (hname : s.Mentions name) :
    ∃ l n n', m.label name = (l, n) ∧ m'.label (ρ.label name) = (l, n') ∧ n.RenamesTo s ρ n' := by
  unfold Emission.label
  rw [h.labels_eq name hname]
  cases m.labels[name]? with
  | some l => exact ⟨l, m, m', rfl, rfl, h⟩
  | none =>
      obtain ⟨hhandle, hprocedure⟩ := h.procedure.newLabel name (ρ.label name)
      refine ⟨_, _, _, rfl, Prod.ext hhandle rfl, hprocedure, fun other hother => ?_⟩
      have hiff : ρ.label name = ρ.label other ↔ name = other := hρ.eq_iff hname hother
      simp only [Std.HashMap.getElem?_insert, beq_iff_eq, hiff, hhandle, h.labels_eq other hother]
      rfl

/-- What is built of renamed cells is the same node. -/
theorem build (h : m.RenamesTo s ρ m') {x y : StateT Arena (Except LowerError) ExprId}
    (hxy : Renames ρ.cell id x y) :
    Agree ρ.cell stray? (fun r r' => r'.1 = r.1 ∧ r.2.RenamesTo s ρ r'.2) (m.build x)
      (m'.build y) := by
  have hrun := hxy stray? m.procedure.arena
  unfold Emission.build
  rw [h.procedure.arena_eq]
  generalize x m.procedure.arena = u at hrun ⊢
  generalize y (m.procedure.arena.renameCells ρ.cell) = w at hrun ⊢
  cases hrun with
  | error herror => exact .error herror
  | ok hr =>
      subst hr
      exact .ok ⟨rfl, h.withArena _⟩

theorem clear (h : m.RenamesTo s ρ m') {c : Cell} (hstray : c.isOwned = false → stray? = some c) :
    Agree ρ.cell stray? (Emission.RenamesTo s ρ) (m.release (Procedure.releaseCell c))
      (m'.release (Procedure.releaseCell (c.rename ρ.cell))) := by
  unfold Emission.release
  rw [Procedure.releaseCell_run, Procedure.releaseCell_run, Cell.isOwned_rename,
    Cell.isManaged_rename]
  cases howned : c.isOwned with
  | false => exact .error (.release (hstray howned))
  | true =>
      cases c.isManaged with
      | false => exact .ok h
      | true => exact .ok ⟨h.procedure.release c, h.labels_eq⟩

theorem clearAll (h : m.RenamesTo s ρ m') (hm : m.Frames s) :
    Agree ρ.cell stray? (Emission.RenamesTo s ρ) (m.release Procedure.releaseAll)
      (m'.release Procedure.releaseAll) := by
  unfold Emission.release
  have howned := h.procedure.isOwned hm.isOwned
  rw [Procedure.releaseAll_run hm.isOwned, Procedure.releaseAll_run howned,
    h.procedure.releasable_eq]
  exact .ok ⟨h.procedure.foldl_release _, h.labels_eq⟩

end Emission.RenamesTo

variable {cells cells' : CellTable}

/-- A statement does the same under new names. -/
theorem agree_lower (hρ : Set.InjOn ρ.label {name | s.Mentions name})
    (hnamed : ∀ name : String, cells[name]? = s.cellNamed name)
    (hcells : ∀ name, s.NamesCell name → FindsRenamed ρ.cell cells cells' name)
    (h : m.RenamesTo s ρ m') (hm : m.Frames s) {st : Stmt} (hst : st ∈ s.body)
    (hstray : ∀ c, st.strayCell? s = some c → stray? = some c) :
    Agree ρ.cell stray? (Emission.RenamesTo s ρ) (m.lower cells st)
      (m'.lower cells' (st.rename ρ)) := by
  have haccess : ∀ name, .access name ∈ st.mentions → FindsRenamed ρ.cell cells cells' name :=
    fun name hname => hcells name (Or.inr ⟨st, hst, Or.inl hname⟩)
  cases st with
  | expr e =>
      have he := renames_lowerExpr e fun name hname => haccess name (List.mem_map_of_mem hname)
      refine (h.build he).bind ?_
      rintro ⟨x, m₁⟩ ⟨_, m₁'⟩ - - ⟨rfl, h₁⟩
      exact .ok (h₁.emit _)
  | store name value isInit =>
      have hvalue := renames_lowerExpr value fun name hname =>
        haccess name (List.mem_cons_of_mem _ (List.mem_map_of_mem hname))
      refine (agree_findCell (haccess name List.mem_cons_self)).bind ?_
      rintro c _ - - rfl
      refine (h.build (hvalue.bind fun x => .modifyGet fun a => ?_)).bind ?_
      · cases isInit with
        | true => exact (Arena.translates_renameCells ρ.cell).storeSlot c x a
        | false => exact (Arena.translates_renameCells ρ.cell).assign c x a
      · rintro ⟨x, m₁⟩ ⟨_, m₁'⟩ - - ⟨rfl, h₁⟩
        exact .ok (h₁.emit _)
  | label name =>
      obtain ⟨l, n, n', hl, hl', hn⟩ := h.exists_label hρ ⟨.label name, hst, rfl⟩
      simp only [Emission.lower, Stmt.rename, hl, hl']
      exact .ok (hn.emit _)
  | jump target mode value =>
      obtain ⟨l, n, n', hl, hl', hn⟩ := h.exists_label hρ ⟨.jump target mode value, hst, rfl⟩
      cases value with
      | none =>
          simp only [Emission.lower, Stmt.rename, Option.map_none, hl, hl']
          exact .ok (hn.emit _)
      | some value =>
          have hvalue := renames_lowerExpr value fun name hname =>
            haccess name (List.mem_map_of_mem hname)
          simp only [Emission.lower, Stmt.rename, Option.map_some, hl, hl']
          refine (hn.build hvalue).bind ?_
          rintro ⟨x, m₁⟩ ⟨_, m₁'⟩ - - ⟨rfl, h₁⟩
          exact .ok (h₁.emit _)
  | stackEmpty => exact .ok (h.emit .stackEmpty)
  | clear name =>
      refine (agree_findCell (hcells name (Or.inr ⟨_, hst, Or.inr List.mem_cons_self⟩))).bind ?_
      rintro c _ hc - rfl
      have hname : s.cellNamed name = some c := (hnamed name).symm.trans (findCell_eq_ok.mp hc)
      refine h.clear fun howned => hstray c ?_
      simp [Stmt.strayCell?, hname, howned]
  | clearAll => exact h.clearAll hm

/-- A statement that succeeds releases no cell that the frame does not own. -/
theorem strayCell?_of_lower (hnamed : ∀ name : String, cells[name]? = s.cellNamed name)
    {st : Stmt} {n : Emission} (hn : m.lower cells st = .ok n) : st.strayCell? s = none := by
  cases st with
  | clear name =>
      obtain ⟨c, hc, hrelease⟩ := except_bind_eq_ok.mp hn
      have hname : s.cellNamed name = some c := (hnamed name).symm.trans (findCell_eq_ok.mp hc)
      unfold Emission.release at hrelease
      rw [Procedure.releaseCell_run] at hrelease
      cases howned : c.isOwned with
      | true => simp [Stmt.strayCell?, hname, howned]
      | false =>
          rw [howned] at hrelease
          cases hrelease
  | expr _ | store _ _ _ | label _ | jump _ _ _ | stackEmpty | clearAll => rfl

theorem agree_foldlM_lower (hρ : Set.InjOn ρ.label {name | s.Mentions name})
    (hnamed : ∀ name : String, cells[name]? = s.cellNamed name)
    (hcells : ∀ name, s.NamesCell name → FindsRenamed ρ.cell cells cells' name) :
    ∀ (ss : List Stmt) (m m' : Emission), ss ⊆ s.body → m.RenamesTo s ρ m' → m.Frames s →
      Agree ρ.cell (s.strayCell? ss) (Emission.RenamesTo s ρ) (ss.foldlM (Emission.lower cells) m)
        ((ss.map (Stmt.rename ρ)).foldlM (Emission.lower cells') m') := by
  intro ss
  induction ss with
  | nil => exact fun _ _ _ h _ => .ok h
  | cons st ss ih =>
      intro m m' hss h hm
      obtain ⟨hst, hss⟩ := List.cons_subset.mp hss
      have hfirst : ∀ c, st.strayCell? s = some c → s.strayCell? (st :: ss) = some c :=
        fun c hc => by rw [strayCell?, List.findSome?_cons, hc]
      rw [List.map_cons, List.foldlM_cons, List.foldlM_cons]
      refine (agree_lower hρ hnamed hcells h hm hst hfirst).bind fun n n' hn _ hnn' => ?_
      -- The first statement has not failed, so the cell in question is that of the others.
      have hrest : s.strayCell? (st :: ss) = s.strayCell? ss :=
        List.findSome?_cons_of_isNone (by rw [strayCell?_of_lower hnamed hn]; rfl)
      rw [hrest]
      exact ih n n' hss hnn' ((Emits.of_lower hnamed hm hn).frames hm)

end Statements

/-! ## Scripts -/

/-- The names of cells that occur in the script stay different, and so do the names of labels. -/
structure Renaming.Separates (ρ : Renaming) (s : Script) : Prop where
  cell : Set.InjOn ρ.cell {name | s.NamesCell name}
  label : Set.InjOn ρ.label {name | s.Mentions name}

theorem Renaming.separates_of_injective {ρ : Renaming} (hcell : Function.Injective ρ.cell)
    (hlabel : Function.Injective ρ.label) (s : Script) : ρ.Separates s :=
  ⟨hcell.injOn, hlabel.injOn⟩

/-- A renamed script is lowered to the renamed procedure. -/
theorem agree_rename {s : Script} {ρ : Renaming} (hρ : ρ.Separates s) :
    Agree ρ.cell (s.strayCell? s.body) (Procedure.RenamesTo ρ.cell) s.lower
      (s.rename ρ).lower := by
  have hnames : ∀ spec ∈ s.cells, s.NamesCell spec.name := fun spec hspec =>
    Or.inl ⟨spec, hspec, rfl⟩
  refine (agree_declared hρ.cell hnames _).bind fun d d' hd hd' _ => ?_
  have hcells : ∀ name, s.NamesCell name → FindsRenamed ρ.cell d.cells d'.cells name := by
    intro name hname
    rw [FindsRenamed, getElem?_cells_eq hd, getElem?_cells_eq hd']
    exact cellNamed_rename hρ.cell hnames hname
  have hstart : Emission.RenamesTo s ρ { procedure := d.procedure } { procedure := d'.procedure } :=
    ⟨renamesTo_declared hd hd', fun _ _ => by simp⟩
  have hbody := agree_foldlM_lower hρ.label (getElem?_cells_eq hd) hcells s.body _ _
    (List.Subset.refl _) hstart (frames_declared hd)
  exact hbody.bind fun m m' _ _ hm => .ok hm.procedure

/-- Every jump of a lowered script gives the handle of its label. -/
theorem jumpsByHandle_of_lower {s : Script} {p : Procedure} (h : s.lower = .ok p) :
    p.JumpsByHandle := by
  obtain ⟨m, rfl, hlaid⟩ := laidOut_of_lower h
  intro name mode value hmem
  obtain ⟨k, hk⟩ := List.mem_iff_getElem?.mp (Array.mem_toList_iff.mpr hmem)
  obtain ⟨_, _, _, _, _, htarget, _⟩ := hlaid.jump_of k _ mode value hk
  cases htarget

/-- Names tell cells and labels apart, and that is all they do. A script that cannot be lowered
fails with the same error when it is renamed, but for the name in it: where a release fails, both
errors have the text of the first cell that is released without being owned. Else both scripts come
to procedures that are the same up to names. Linking fails for both of these in the same way at the
same statement, or it finds the same in both. -/
theorem lower_rename {s : Script} {ρ : Renaming} (hρ : ρ.Separates s) :
    (∀ error, s.lower = .error error → ∃ error', (s.rename ρ).lower = .error error' ∧
      error.RenamesTo ρ.cell (s.strayCell? s.body) error') ∧
      ∀ p, s.lower = .ok p → ∃ q, (s.rename ρ).lower = .ok q ∧ p.SameUpToNames q ∧
        (∀ error, p.link = .error error →
          ∃ error', q.link = .error error' ∧ error'.unnamed = error.unnamed) ∧
        ∀ r, p.link = .ok r → ∃ r', q.link = .ok r' ∧ r'.linkage = r.linkage := by
  have hagree := agree_rename hρ
  refine ⟨fun error herror => ?_, fun p hp => ?_⟩
  · rw [herror] at hagree
    exact hagree.exists_error
  · have hhandles := jumpsByHandle_of_lower hp
    rw [hp] at hagree
    obtain ⟨q, hq, hpq⟩ := hagree.exists_ok
    exact ⟨q, hq, hpq.sameUpToNames, fun _ => hpq.exists_link_eq_error hhandles,
      fun _ => hpq.exists_link hhandles⟩

/-- A boxed local and an argument, and a loop whose label has the name of the argument. -/
def namesakes : Script where
  header := {}
  cells := [⟨"x", .localVar, none, true, true, true⟩, ⟨"y", .argument, none, true, false, false⟩]
  body := [.store "x" (.call "f" 1 false [.load "y"]) true, .label "y",
    .store "x" (.field (.load "x") 0) false, .jump "y" .ifZero (some (.load "x")), .clear "y",
    .clearAll]

/-- The two cells change their names, and the label gets a new one. -/
def exchange : Renaming where
  cell := Equiv.swap "x" "y"
  label := ("loop." ++ ·)

theorem lower_rename_namesakes : exchange.Separates namesakes ∧ ∃ p q,
    namesakes.lower = .ok p ∧ (namesakes.rename exchange).lower = .ok q ∧ p.SameUpToNames q ∧
      ∃ r r', p.link = .ok r ∧ q.link = .ok r' ∧ r'.linkage = r.linkage := by
  have hlabel : Function.Injective exchange.label := by
    intro name name' h
    simpa [exchange] using h
  have hseparates : exchange.Separates namesakes :=
    Renaming.separates_of_injective (Equiv.swap "x" "y").injective hlabel namesakes
  have hsize : namesakes.cells.length < UInt32.size := by decide
  obtain ⟨p, hp⟩ := (stopsAt_faults hsize).exists_ok_iff.mpr (by decide)
  obtain ⟨q, hq, hsame, -, hlink⟩ := (lower_rename hseparates).2 p hp
  have hlinkable : namesakes.Linkable := by
    refine ⟨fun i j name hi hj => ?_, fun i target mode value hi => ⟨1, ?_⟩⟩
    · have hplace : ∀ (i : Nat), namesakes.body[i]? = some (.label name) → i = 1 := by
        intro i hi
        rcases i with _ | _ | _ | _ | _ | _ | i <;> simp [namesakes] at hi ⊢
      rw [hplace i hi, hplace j hj]
    · rcases i with _ | _ | _ | _ | _ | _ | i <;> simp [namesakes] at hi ⊢
      exact hi.1
  obtain ⟨m, rfl, hlaid⟩ := laidOut_of_lower hp
  obtain ⟨r, hr⟩ := hlaid.exists_link (built_of_lower hp).wellFormed.toWalkable hlinkable
  obtain ⟨r', hr', hlinkage⟩ := hlink r hr
  exact ⟨hseparates, m.procedure, q, hp, hq, hsame, r, r', hr, hr', hlinkage⟩

end StackIR.Script
