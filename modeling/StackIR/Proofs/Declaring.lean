import Mathlib.Data.List.Induction
import Mathlib.Data.List.Nodup
import StackIR.Script.Lower

/-!
# The cells a script declares

What the declarations of a script come to is said at once (`Script.cellsOf`): a cell for each, whose
index is the number of declarations before it in its storage. Declaring them one after the other
yields a table of just these cells by name and a procedure that has those of its storages in order
(`Script.declares_of_declared`).
-/

namespace StackIR.Script

/-- The declaration at a position of the script. Without an id of its own the position is taken. -/
def CellSpec.declaration (spec : CellSpec) (position : Nat) : Declaration where
  decl := spec.decl.getD position.toUInt32
  name := some spec.name
  captured := spec.captured
  written := spec.written
  refCounted := spec.refCounted

/-- The cells of some declarations: each stands behind those before it in its storage. -/
def cellsOf (specs : List CellSpec) : List Cell :=
  specs.zipIdx.map fun (spec, i) =>
    (spec.declaration i).cell ((specs.take i).countP (·.storage = spec.storage)) spec.storage

/-- The cells that a procedure of the script has in one storage. -/
def cellsIn (specs : List CellSpec) (storage : Storage) : List Cell :=
  (cellsOf specs).filter (·.storage = storage)

theorem cellsOf_concat (specs : List CellSpec) (spec : CellSpec) :
    cellsOf (specs ++ [spec]) = cellsOf specs ++ [(spec.declaration specs.length).cell
      (specs.countP (·.storage = spec.storage)) spec.storage] := by
  unfold cellsOf
  rw [List.zipIdx_append, List.map_append]
  congr 1
  · refine List.map_congr_left fun ⟨x, i⟩ hx => ?_
    have hi := (List.getElem?_eq_some_iff.mp (List.mem_zipIdx_iff_getElem?.mp hx)).1
    dsimp only at hi ⊢
    rw [List.take_append_of_le_length (Nat.le_of_lt hi)]
  · simp

theorem cellsIn_concat (specs : List CellSpec) (spec : CellSpec) (storage : Storage) :
    cellsIn (specs ++ [spec]) storage = cellsIn specs storage ++
      if spec.storage = storage then [(spec.declaration specs.length).cell
        (specs.countP (·.storage = spec.storage)) spec.storage] else [] := by
  unfold cellsIn
  rw [cellsOf_concat, List.filter_append]
  congr 1
  by_cases h : spec.storage = storage
  · simp [Declaration.cell, h]
  · simp [Declaration.cell, h]

theorem length_cellsIn (specs : List CellSpec) (storage : Storage) :
    (cellsIn specs storage).length = specs.countP (·.storage = storage) := by
  induction specs using List.reverseRecOn with
  | nil => rfl
  | append_singleton specs spec ih =>
      rw [cellsIn_concat, List.length_append, ih, List.countP_append, List.countP_singleton]
      split <;> simp_all

theorem map_name_cellsOf (specs : List CellSpec) :
    (cellsOf specs).map (·.name) = specs.map fun spec => some spec.name := by
  induction specs using List.reverseRecOn with
  | nil => rfl
  | append_singleton specs spec ih =>
      rw [cellsOf_concat, List.map_append, ih, List.map_append]
      rfl

/-- What has been declared, with the cell at a position that is not declared yet. -/
def Declared.declareFresh (d : Declared) (spec : CellSpec) (position : Nat) : Declared :=
  let (c, d) := d.addCell spec.storage (spec.declaration position)
  { d with
    cells := d.cells.insert spec.name c
    decls := d.decls.insert (spec.declaration position).decl }

theorem decls_declareFresh (d : Declared) (spec : CellSpec) (position : Nat) :
    (d.declareFresh spec position).decls = d.decls.insert (spec.declaration position).decl := by
  unfold Declared.declareFresh Declared.addCell
  cases spec.storage <;> rfl

theorem declare_eq (d : Declared) (spec : CellSpec) (position : Nat) :
    d.declare (spec, position) =
      if d.decls.contains (spec.declaration position).decl then
        .error (.duplicateDecl (spec.declaration position).decl spec.name)
      else if d.cells.contains spec.name then .error (.duplicateCell spec.name)
      else .ok (d.declareFresh spec position) :=
  rfl

theorem declare_eq_ok {d d' : Declared} {spec : CellSpec} {position : Nat} :
    d.declare (spec, position) = .ok d' ↔
      d.decls.contains (spec.declaration position).decl = false ∧
        d.cells.contains spec.name = false ∧ d' = d.declareFresh spec position := by
  rw [declare_eq]
  cases d.decls.contains (spec.declaration position).decl with
  | true => simp
  | false =>
      cases d.cells.contains spec.name with
      | true => simp
      | false => simp [eq_comm]

/-- What has been declared are the cells of some declarations. -/
structure Declares (h : Header) (specs : List CellSpec) (d : Declared) : Prop where
  procedure_eq : d.procedure = { h.procedure with
    args := (cellsIn specs .argument).toArray
    locals := (cellsIn specs .localVar).toArray
    captured := (cellsIn specs .captured).toArray }
  globals_eq : d.globals = specs.countP (·.storage = .global)
  cells_eq : ∀ name, d.cells[name]? = (cellsOf specs).find? (·.name = some name)
  nodup : (specs.map (·.name)).Nodup

theorem Declares.addCell {h : Header} {specs : List CellSpec} {d : Declared}
    (hd : Declares h specs d) (spec : CellSpec) :
    (d.addCell spec.storage (spec.declaration specs.length)).1 =
        (spec.declaration specs.length).cell (specs.countP (·.storage = spec.storage))
          spec.storage ∧
      (d.addCell spec.storage (spec.declaration specs.length)).2.procedure = { h.procedure with
        args := (cellsIn (specs ++ [spec]) .argument).toArray
        locals := (cellsIn (specs ++ [spec]) .localVar).toArray
        captured := (cellsIn (specs ++ [spec]) .captured).toArray } ∧
      (d.addCell spec.storage (spec.declaration specs.length)).2.globals =
        (specs ++ [spec]).countP (·.storage = .global) ∧
      (d.addCell spec.storage (spec.declaration specs.length)).2.cells = d.cells := by
  have hsize : ∀ storage, (cellsIn specs storage).toArray.size =
      specs.countP (·.storage = storage) := fun storage => by
    rw [List.size_toArray, length_cellsIn]
  simp only [cellsIn_concat, List.countP_append, List.countP_singleton]
  unfold Declared.addCell
  cases hstorage : spec.storage with
  | argument =>
      simp [Procedure.addArgument, hd.procedure_eq, hd.globals_eq, ← length_cellsIn]
  | localVar =>
      simp [Procedure.addLocal, hd.procedure_eq, hd.globals_eq, ← length_cellsIn]
  | captured =>
      simp [Procedure.addCaptured, hd.procedure_eq, hd.globals_eq, ← length_cellsIn]
  | global =>
      simp [hd.procedure_eq, hd.globals_eq]

theorem Declares.declare {h : Header} {specs : List CellSpec} {d d' : Declared}
    (hd : Declares h specs d) {spec : CellSpec}
    (hspec : d.declare (spec, specs.length) = .ok d') : Declares h (specs ++ [spec]) d' := by
  obtain ⟨hcell, hprocedure, hglobals, hcells⟩ := hd.addCell spec
  obtain ⟨-, hname, rfl⟩ := declare_eq_ok.mp hspec
  have hfresh : (cellsOf specs).find? (·.name = some spec.name) = none := by
    rw [← hd.cells_eq]
    simpa using hname
  refine ⟨hprocedure, hglobals, fun name => ?_, ?_⟩
  · show ((d.addCell spec.storage (spec.declaration specs.length)).2.cells.insert spec.name
      (d.addCell spec.storage (spec.declaration specs.length)).1)[name]? = _
    rw [hcell, hcells, cellsOf_concat, List.find?_append, Std.HashMap.getElem?_insert]
    by_cases heq : spec.name = name
    · subst heq
      rw [hfresh]
      simp [Declaration.cell, CellSpec.declaration]
    · rw [if_neg (by simpa using heq), hd.cells_eq]
      simp [Declaration.cell, CellSpec.declaration, heq]
  · rw [List.map_append, List.nodup_append]
    refine ⟨hd.nodup, by simp, ?_⟩
    rintro name hmem _ hlast rfl
    obtain ⟨c, hc, hcname⟩ : ∃ c ∈ cellsOf specs, c.name = some name := by
      refine List.mem_map.mp ?_
      rw [map_name_cellsOf]
      simpa [Function.comp_def] using hmem
    obtain rfl : name = spec.name := by simpa using hlast
    exact absurd hcname (by simpa using List.find?_eq_none.mp hfresh c hc)

theorem except_bind_eq_ok {ε α β : Type} {x : Except ε α} {f : α → Except ε β} {b : β} :
    (x >>= f) = .ok b ↔ ∃ a, x = .ok a ∧ f a = .ok b := by
  cases x with
  | error error => simp [bind, Except.bind]
  | ok a => simp [bind, Except.bind]

/-- The last cell of a script is declared behind the others. -/
theorem declared_concat (h : Header) (specs : List CellSpec) (spec : CellSpec)
    (body : List Stmt) :
    declared ⟨h, specs ++ [spec], body⟩ =
      declared ⟨h, specs, body⟩ >>= fun d => d.declare (spec, specs.length) := by
  simp only [declared, List.zipIdx_append, List.foldlM_append, List.zipIdx_singleton, Nat.zero_add,
    List.foldlM_cons, List.foldlM_nil, bind_pure]

/-- A cell can be declared if it is the only one. -/
theorem declared_singleton (h : Header) (spec : CellSpec) (body : List Stmt) :
    declared ⟨h, [spec], body⟩ =
      .ok ({ procedure := h.procedure : Declared }.declareFresh spec 0) := by
  have hfresh : ({ procedure := h.procedure : Declared }.declare (spec, 0)) =
      .ok ({ procedure := h.procedure : Declared }.declareFresh spec 0) :=
    declare_eq_ok.mpr ⟨Std.HashSet.contains_empty, Std.HashMap.contains_empty, rfl⟩
  exact except_bind_eq_ok.mpr ⟨_, hfresh, rfl⟩

/-- What the declarations of a script come to. -/
theorem declares_of_declared {s : Script} {d : Declared} (h : s.declared = .ok d) :
    Declares s.header s.cells d := by
  obtain ⟨header, specs, body⟩ := s
  induction specs using List.reverseRecOn generalizing d with
  | nil =>
      obtain rfl := Except.ok.inj h
      exact ⟨rfl, rfl, by simp [cellsOf], List.nodup_nil⟩
  | append_singleton specs spec ih =>
      rw [declared_concat] at h
      obtain ⟨d', hspecs, hspec⟩ := except_bind_eq_ok.mp h
      exact (ih hspecs).declare hspec

/-! ## The cells by name and by what gives them up -/

def allCells (s : Script) : List Cell :=
  cellsOf s.cells

def cellNamed (s : Script) (name : String) : Option Cell :=
  s.allCells.find? (·.name = some name)

/-- The cells a statement gives up: the one it clears if the frame holds a reference through it, or
all such locals and then all such arguments. The entry point of the program keeps its cells. -/
def exits (s : Script) : Stmt → List Cell
  | .clear name => (s.cellNamed name).toList.filter Cell.isManaged
  | .clearAll =>
    if s.header.isRoot then []
    else (cellsIn s.cells .localVar ++ cellsIn s.cells .argument).filter Cell.isManaged
  | _ => []

/-- No two declarations have the same name. -/
theorem nodup_names {s : Script} {d : Declared} (h : s.declared = .ok d) :
    (s.allCells.map (·.name)).Nodup := by
  have hnames := (declares_of_declared h).nodup.map (f := some) fun _ _ => Option.some.inj
  rw [allCells, map_name_cellsOf]
  rwa [List.map_map] at hnames

theorem nodup_allCells {s : Script} {d : Declared} (h : s.declared = .ok d) :
    s.allCells.Nodup :=
  (nodup_names h).of_map _

theorem getElem?_cells_eq {s : Script} {d : Declared} (h : s.declared = .ok d) (name : String) :
    d.cells[name]? = s.cellNamed name :=
  (declares_of_declared h).cells_eq name

theorem exits_clearAll_eq {s : Script} {d : Declared} (h : s.declared = .ok d) :
    s.exits .clearAll = if d.procedure.isRoot then [] else
      (d.procedure.locals.toList ++ d.procedure.args.toList).filter Cell.isManaged := by
  rw [(declares_of_declared h).procedure_eq]
  rfl

theorem mem_exits_clearAll {s : Script} {c : Cell} :
    c ∈ s.exits .clearAll ↔ s.header.isRoot = false ∧ c ∈ s.allCells ∧ c.isOwned = true ∧
      c.isManaged = true := by
  unfold exits
  cases hroot : s.header.isRoot with
  | true => simp
  | false =>
      simp only [cellsIn, List.mem_filter, List.mem_append, Cell.isOwned, Bool.or_eq_true,
        decide_eq_true_eq, Bool.false_eq_true, if_false, true_and]
      constructor
      · rintro ⟨⟨hc, hstorage⟩ | ⟨hc, hstorage⟩, hmanaged⟩
        · exact ⟨hc, Or.inr hstorage, hmanaged⟩
        · exact ⟨hc, Or.inl hstorage, hmanaged⟩
      · rintro ⟨hc, hstorage | hstorage, hmanaged⟩
        · exact ⟨Or.inr ⟨hc, hstorage⟩, hmanaged⟩
        · exact ⟨Or.inl ⟨hc, hstorage⟩, hmanaged⟩

theorem isManaged_of_mem_exits {s : Script} {st : Stmt} {c : Cell} (h : c ∈ s.exits st) :
    c.isManaged = true := by
  cases st with
  | clear name => exact (List.mem_filter.mp h).2
  | clearAll => exact (mem_exits_clearAll.mp h).2.2.2
  | _ => cases h

theorem nodup_exits {s : Script} {d : Declared} (h : s.declared = .ok d) (st : Stmt) :
    (s.exits st).Nodup := by
  cases st with
  | clear name =>
      simp only [exits]
      refine List.Nodup.filter _ ?_
      cases s.cellNamed name <;> simp
  | clearAll =>
      simp only [exits]
      split
      · exact List.nodup_nil
      · refine List.Nodup.filter _ (List.Nodup.append ((nodup_allCells h).filter _)
          ((nodup_allCells h).filter _) ?_)
        intro c hlocal harg
        have hlocal' := of_decide_eq_true (List.mem_filter.mp hlocal).2
        have harg' := of_decide_eq_true (List.mem_filter.mp harg).2
        rw [hlocal'] at harg'
        cases harg'
  | _ => exact List.nodup_nil

end StackIR.Script
