import StackIR.Proofs.Emitting

/-!
# Faults of a script

What is wrong with a script can be read off it without lowering anything: two cells with one
declaration id or one name, a cell that is mentioned but not declared, and a release of a cell that
the frame does not own. `Script.faults` lists them in the order of the script, the cells before the
body. Lowering stops at the first of them and succeeds if there is none
(`Script.lower_reportsFirstFault`).

A computation that stops at the first of some faults, followed by one that stops at the first of
others, stops at the first of all of them (`StopsAt.bind`). So the order of the faults follows the
recursion of lowering, from expressions to statements to bodies.
-/

namespace StackIR.Script

/-! ## Faults of cells -/

/-- The declaration id of the cell at a position of the script: its own, or else the position. -/
def CellSpec.declId (spec : CellSpec) (position : Nat) : Nat :=
  spec.decl.elim position UInt32.toNat

/-- What is wrong with a cell that is declared behind others. -/
def CellSpec.fault? (earlier : List CellSpec) (spec : CellSpec) : Option LowerError :=
  let id := spec.declId earlier.length
  if earlier.zipIdx.any fun (x, i) => x.declId i = id then
    some (.duplicateDecl id.toUInt32 spec.name)
  else if earlier.any fun x => x.name = spec.name then some (.duplicateCell spec.name)
  else none

def cellFaults (specs : List CellSpec) : List LowerError :=
  specs.zipIdx.filterMap fun (spec, i) => spec.fault? (specs.take i)

/-! ## Faults of the body -/

mutual

/-- The cells an expression loads, from the left and depth first. -/
def Expr.loads : Expr → List String
  | .num _ | .bool _ | .pointer .. | .jumpValue => []
  | .load name => [name]
  | .call _ _ _ args => Expr.loadsOfEach args
  | .procCall _ _ args => Expr.loadsOfEach args
  | .field e _ => e.loads
  | .sequence items => Expr.loadsOfEach items

def Expr.loadsOfEach : List Expr → List String
  | [] => []
  | e :: es => e.loads ++ Expr.loadsOfEach es

end

/-- A place of the body that names a cell. -/
inductive Mention where
  /-- Reads or writes the cell. -/
  | access (name : String)
  /-- Releases the cell. -/
  | clear (name : String)
deriving Repr, DecidableEq

/-- The mentions of cells in a statement, in the order they are met. -/
def Stmt.mentions : Stmt → List Mention
  | .expr e => e.loads.map .access
  | .store cell value _ => .access cell :: value.loads.map .access
  | .jump _ _ (some value) => value.loads.map .access
  | .clear cell => [.clear cell]
  | .jump _ _ none | .label _ | .stackEmpty | .clearAll => []

/-- What is wrong with a mention of a cell, where `named` tells the declared cells. A cell that is
released has to belong to the frame, whether its value is counted or not. -/
def Mention.fault? (named : String → Option Cell) : Mention → Option LowerError
  | .access name => if (named name).isSome then none else some (.unknownCell name)
  | .clear name =>
    match named name with
    | none => some (.unknownCell name)
    | some c =>
      if c.storage = .global ∨ c.storage = .captured then some (.release (.notOwned c.text))
      else none

def faultsAmong (s : Script) (mentions : List Mention) : List LowerError :=
  mentions.filterMap (Mention.fault? s.cellNamed)

/-- What is wrong with a script, in order: first the cells, then the body. -/
def faults (s : Script) : List LowerError :=
  cellFaults s.cells ++ s.faultsAmong (s.body.flatMap Stmt.mentions)

@[simp] theorem faultsAmong_append (s : Script) (ms ns : List Mention) :
    s.faultsAmong (ms ++ ns) = s.faultsAmong ms ++ s.faultsAmong ns :=
  List.filterMap_append

/-! ## Stopping at the first fault -/

/-- A computation stops at the first of some faults, and succeeds if there is none. -/
def StopsAt {α : Type} : List LowerError → Except LowerError α → Prop
  | [], x => ∃ v, x = .ok v
  | fault :: _, x => x = .error fault

namespace StopsAt

variable {α β : Type} {x : Except LowerError α} {fs gs : List LowerError}

theorem ok (v : α) : StopsAt [] (.ok v : Except LowerError α) :=
  ⟨v, rfl⟩

theorem bind {f : α → Except LowerError β} (hx : StopsAt fs x)
    (hf : ∀ v, x = .ok v → StopsAt gs (f v)) : StopsAt (fs ++ gs) (x >>= f) := by
  cases fs with
  | nil =>
      obtain ⟨v, rfl⟩ := hx
      exact hf v rfl
  | cons fault fs =>
      obtain rfl : x = .error fault := hx
      exact rfl

/-- What follows may have no fault of its own. -/
theorem bind_ok {f : α → Except LowerError β} (hx : StopsAt fs x)
    (hf : ∀ v, x = .ok v → ∃ w, f v = .ok w) : StopsAt fs (x >>= f) := by
  rw [← List.append_nil fs]
  exact hx.bind hf

theorem eq_error_iff (hx : StopsAt fs x) (error : LowerError) :
    x = .error error ↔ fs.head? = some error := by
  cases fs with
  | nil =>
      obtain ⟨v, rfl⟩ := hx
      simp
  | cons fault fs =>
      obtain rfl : x = .error fault := hx
      simp

theorem exists_ok_iff (hx : StopsAt fs x) : (∃ v, x = .ok v) ↔ fs = [] := by
  cases fs with
  | nil => exact iff_of_true hx rfl
  | cons fault fs =>
      obtain rfl : x = .error fault := hx
      simp

end StopsAt

/-! ## Cells -/

theorem cellFaults_concat (specs : List CellSpec) (spec : CellSpec) :
    cellFaults (specs ++ [spec]) = cellFaults specs ++ (spec.fault? specs).toList := by
  unfold cellFaults
  rw [List.zipIdx_append, List.filterMap_append]
  congr 1
  · refine List.filterMap_congr fun ⟨x, i⟩ hx => ?_
    have hi := (List.getElem?_eq_some_iff.mp (List.mem_zipIdx_iff_getElem?.mp hx)).1
    dsimp only at hi ⊢
    rw [List.take_append_of_le_length (Nat.le_of_lt hi)]
  · simp only [List.zipIdx_singleton, Nat.zero_add, List.filterMap_cons, List.filterMap_nil,
      List.take_left]
    cases spec.fault? specs <;> rfl

/-- Positions are declaration ids as far as these go. -/
theorem toNat_decl (spec : CellSpec) {i : Nat} (hi : i < UInt32.size) :
    (spec.declaration i).decl.toNat = spec.declId i := by
  unfold CellSpec.declaration CellSpec.declId
  cases spec.decl with
  | none => exact UInt32.toNat_ofNat_of_lt hi
  | some decl => rfl

/-- The ids that some declarations have taken are known. -/
def TakesIds (specs : List CellSpec) (d : Declared) : Prop :=
  ∀ id : DeclId, d.decls.contains id = specs.zipIdx.any fun (x, i) => x.declId i = id.toNat

theorem Declares.contains_cells {h : Header} {specs : List CellSpec} {d : Declared}
    (hd : Declares h specs d) (name : String) :
    d.cells.contains name = specs.any fun x => x.name = name := by
  have hnames : ((cellsOf specs).map (·.name)).any (· = some name) =
      (specs.map fun spec => some spec.name).any (· = some name) := by
    rw [map_name_cellsOf]
  rw [List.any_map, List.any_map] at hnames
  rw [Std.HashMap.contains_eq_isSome_getElem?, hd.cells_eq, List.isSome_find?]
  simpa [Function.comp_def] using hnames

theorem TakesIds.declare {specs : List CellSpec} {d d' : Declared} (hd : TakesIds specs d)
    {spec : CellSpec} (hsize : specs.length < UInt32.size)
    (h : d.declare (spec, specs.length) = .ok d') : TakesIds (specs ++ [spec]) d' := by
  have hdecls : d'.decls = d.decls.insert (spec.declaration specs.length).decl := by
    obtain ⟨-, -, rfl⟩ := declare_eq_ok.mp h
    exact decls_declareFresh d spec specs.length
  intro id
  rw [hdecls, Std.HashSet.contains_insert, hd id, List.zipIdx_append, List.any_append, Bool.or_comm]
  congr 1
  simp [← toNat_decl spec hsize, UInt32.toNat_inj, Bool.beq_eq_decide_eq]

theorem stopsAt_declare {h : Header} {specs : List CellSpec} {d : Declared}
    (hd : Declares h specs d) (hids : TakesIds specs d) (hsize : specs.length < UInt32.size)
    (spec : CellSpec) :
    StopsAt (spec.fault? specs).toList (d.declare (spec, specs.length)) := by
  have hid : (spec.declId specs.length).toUInt32 = (spec.declaration specs.length).decl := by
    rw [← toNat_decl spec hsize]
    exact UInt32.ofNat_toNat
  have htaken := hids (spec.declaration specs.length).decl
  rw [toNat_decl spec hsize] at htaken
  unfold CellSpec.fault?
  simp only [← htaken, ← hd.contains_cells, hid, declare_eq]
  cases d.decls.contains (spec.declaration specs.length).decl with
  | true => exact rfl
  | false =>
      cases d.cells.contains spec.name with
      | true => exact rfl
      | false => exact .ok _

theorem takesIds_of_declared {s : Script} (hsize : s.cells.length < UInt32.size) {d : Declared}
    (h : s.declared = .ok d) : TakesIds s.cells d := by
  obtain ⟨header, specs, body⟩ := s
  induction specs using List.reverseRecOn generalizing d with
  | nil =>
      obtain rfl := Except.ok.inj h
      intro id
      simp
  | append_singleton specs spec ih =>
      rw [declared_concat] at h
      obtain ⟨d', hspecs, hspec⟩ := except_bind_eq_ok.mp h
      have hlt : specs.length < UInt32.size := Nat.lt_of_succ_lt (by simpa using hsize)
      exact (ih hlt hspecs).declare hlt hspec

/-- Declaring cells stops at the first that is faulty. -/
theorem stopsAt_declared {s : Script} (hsize : s.cells.length < UInt32.size) :
    StopsAt (cellFaults s.cells) s.declared := by
  obtain ⟨header, specs, body⟩ := s
  -- From the last cell, since the cells before it decide whether it is faulty.
  induction specs using List.reverseRecOn with
  | nil => exact .ok _
  | append_singleton specs spec ih =>
      have hlt : specs.length < UInt32.size := Nat.lt_of_succ_lt (by simpa using hsize)
      rw [declared_concat, cellFaults_concat]
      refine (ih hlt).bind fun d hd => ?_
      exact stopsAt_declare (declares_of_declared hd) (takesIds_of_declared hlt hd) hlt spec

/-! ## Expressions -/

section Body

variable {s : Script} {cells : CellTable}

theorem stopsAt_findCell (hcells : ∀ name : String, cells[name]? = s.cellNamed name)
    (name : String) :
    StopsAt (s.faultsAmong [.access name]) (findCell cells name) := by
  rw [findCell, hcells]
  simp only [faultsAmong, List.filterMap_cons, List.filterMap_nil, Mention.fault?]
  cases s.cellNamed name with
  | none => exact rfl
  | some c => exact .ok c

mutual

/-- Lowering an expression stops at the first load of a cell that is not declared. -/
theorem stopsAt_lowerExpr (hcells : ∀ name : String, cells[name]? = s.cellNamed name) :
    ∀ (e : Expr) (a : Arena),
      StopsAt (s.faultsAmong (e.loads.map .access)) (lowerExpr cells e a)
  | .num _, _ | .bool _, _ | .pointer .., _ | .jumpValue, _ => .ok _
  | .load name, _ =>
      ((stopsAt_findCell hcells name).bind_ok fun _ _ => ⟨_, rfl⟩).bind_ok fun _ _ => ⟨_, rfl⟩
  | .call _ _ _ args, a =>
      (stopsAt_lowerExprs hcells args a).bind_ok fun _ _ => ⟨_, rfl⟩
  | .procCall _ _ args, a =>
      (stopsAt_lowerExprs hcells args a).bind_ok fun _ _ => ⟨_, rfl⟩
  | .field e _, a =>
      (stopsAt_lowerExpr hcells e a).bind_ok fun _ _ => ⟨_, rfl⟩
  | .sequence items, a =>
      (stopsAt_lowerExprs hcells items a).bind_ok fun _ _ => ⟨_, rfl⟩

theorem stopsAt_lowerExprs (hcells : ∀ name : String, cells[name]? = s.cellNamed name) :
    ∀ (es : List Expr) (a : Arena),
      StopsAt (s.faultsAmong ((Expr.loadsOfEach es).map .access)) (lowerExprs cells es a)
  | [], _ => .ok _
  | e :: es, a => by
      rw [Expr.loadsOfEach, List.map_append, faultsAmong_append]
      refine (stopsAt_lowerExpr hcells e a).bind fun _ _ => ?_
      exact (stopsAt_lowerExprs hcells es _).bind_ok fun _ _ => ⟨_, rfl⟩

end

/-! ## Statements -/

theorem stopsAt_build {m : Emission} {fs : List LowerError}
    {f : StateT Arena (Except LowerError) ExprId} (h : StopsAt fs (f m.procedure.arena)) :
    StopsAt fs (m.build f) := by
  have heq : m.build f = f m.procedure.arena >>= fun r => .ok (r.1, m.withArena r.2) := by
    unfold Emission.build
    cases f m.procedure.arena <;> rfl
  rw [heq]
  exact h.bind_ok fun _ _ => ⟨_, rfl⟩

theorem stopsAt_clear (hcells : ∀ name : String, cells[name]? = s.cellNamed name) (m : Emission)
    (name : String) :
    StopsAt (s.faultsAmong [.clear name]) (m.lower cells (.clear name)) := by
  rw [Emission.lower, findCell, hcells]
  simp only [faultsAmong, List.filterMap_cons, List.filterMap_nil, Mention.fault?]
  cases s.cellNamed name with
  | none => exact rfl
  | some c =>
      show StopsAt _ (m.release (Procedure.releaseCell c))
      unfold Emission.release
      rw [Procedure.releaseCell_run, Cell.isOwned_eq]
      by_cases hforeign : c.storage = .global ∨ c.storage = .captured
      · simp only [hforeign]
        exact rfl
      · simp only [hforeign]
        exact .ok _

/-- Releasing all cells does not fail: the frame owns its locals and arguments. -/
theorem exists_lower_clearAll {m : Emission} (hm : m.Frames s) :
    ∃ m', m.lower cells .clearAll = .ok m' := by
  show ∃ m', m.release Procedure.releaseAll = .ok m'
  unfold Emission.release
  rw [Procedure.releaseAll_run hm.isOwned]
  exact ⟨_, rfl⟩

/-- A statement stops at the first fault among its mentions of cells. -/
theorem stopsAt_lower (hcells : ∀ name : String, cells[name]? = s.cellNamed name) {m : Emission}
    (hm : m.Frames s) (st : Stmt) :
    StopsAt (s.faultsAmong st.mentions) (m.lower cells st) := by
  cases st with
  | expr e => exact (stopsAt_build (stopsAt_lowerExpr hcells e _)).bind_ok fun _ _ => ⟨_, rfl⟩
  | store name value isInit =>
      -- The target is looked up before the value is lowered.
      rw [Stmt.mentions, ← List.singleton_append, faultsAmong_append]
      refine (stopsAt_findCell hcells name).bind fun c _ => ?_
      refine (stopsAt_build ?_).bind_ok fun _ _ => ⟨_, rfl⟩
      exact (stopsAt_lowerExpr hcells value _).bind_ok fun _ _ => ⟨_, rfl⟩
  | label name => exact .ok _
  | jump target mode value =>
      cases value with
      | none => exact .ok _
      | some value =>
          exact (stopsAt_build (stopsAt_lowerExpr hcells value _)).bind_ok fun _ _ => ⟨_, rfl⟩
  | stackEmpty => exact .ok _
  | clear name => exact stopsAt_clear hcells m name
  | clearAll => exact exists_lower_clearAll hm

theorem stopsAt_foldlM_lower (hcells : ∀ name : String, cells[name]? = s.cellNamed name)
    (ss : List Stmt) : ∀ m : Emission, m.Frames s →
      StopsAt (s.faultsAmong (ss.flatMap Stmt.mentions)) (ss.foldlM (Emission.lower cells) m) := by
  induction ss with
  | nil => exact fun _ _ => .ok _
  | cons st ss ih =>
      intro m hm
      rw [List.flatMap_cons, faultsAmong_append, List.foldlM_cons]
      refine (stopsAt_lower hcells hm st).bind fun m' hst => ?_
      exact ih m' ((Emits.of_lower hcells hm hst).frames hm)

end Body

theorem stopsAt_faults {s : Script} (hsize : s.cells.length < UInt32.size) :
    StopsAt s.faults s.lower := by
  refine (stopsAt_declared hsize).bind fun d hd => ?_
  exact (stopsAt_foldlM_lower (getElem?_cells_eq hd) s.body _ (frames_declared hd)).bind_ok
    fun _ _ => ⟨_, rfl⟩

/-- Lowering a script reports its first fault, and succeeds just if it has none, as long as every
position is a declaration id. Releasing all cells never fails, whatever was lowered before. -/
theorem lower_reportsFirstFault {s : Script} (hsize : s.cells.length < UInt32.size) :
    (∀ error, s.lower = .error error ↔ s.faults.head? = some error) ∧
      ((∃ p, s.lower = .ok p) ↔ s.faults = []) ∧
        ∀ (d : Declared) (ss : List Stmt) (m : Emission), s.declared = .ok d →
          ss.foldlM (Emission.lower d.cells) { procedure := d.procedure } = .ok m →
            ∃ m', m.lower d.cells .clearAll = .ok m' := by
  have hstops := stopsAt_faults hsize
  refine ⟨hstops.eq_error_iff, hstops.exists_ok_iff, fun d ss m hd hrun => ?_⟩
  exact exists_lower_clearAll (emitted_of_foldlM (getElem?_cells_eq hd) (frames_declared hd) hrun).2

/-- A global that is released, behind a call that loads two cells nobody declared. -/
def strayCells : Script where
  header := {}
  cells := [⟨"g", .global, none, false, false, false⟩, ⟨"x", .localVar, some 7, true, false, false⟩]
  body := [.clearAll,
    .store "x" (.call "f" 0 false [.load "x", .field (.load "y") 0, .load "z"]) true, .clear "g"]

theorem lower_reportsFirstFault_strayCells :
    strayCells.cells.length < UInt32.size ∧
      strayCells.faults = [.unknownCell "y", .unknownCell "z",
        .release (.notOwned "[g]")] ∧
      strayCells.lower = .error (.unknownCell "y") := by
  have hsize : strayCells.cells.length < UInt32.size := by decide
  have hfaults : strayCells.faults = [.unknownCell "y", .unknownCell "z",
      .release (.notOwned "[g]")] := by decide
  refine ⟨hsize, hfaults, ((lower_reportsFirstFault hsize).1 _).mpr ?_⟩
  rw [hfaults]
  rfl

end StackIR.Script
