import StackIR.Proofs.Increments
import StackIR.Proofs.Linking

/-!
# The cells of a lowered script

Lowering a script makes one cell for each declaration, and the table that the body is lowered with
finds it by its name (`Script.DeclaredAt`). A cell is what its declaration says
(`CellSpec.Describes`), and the lists of the procedure hold the cells of their storage in the order
of the declarations. Cells are the same slot only if they are of one declaration, because no two
declarations have the same id, and for the same reason a cell can be found by its id
(`Script.tabulates_of_lower`).
-/

namespace StackIR

/-- The cells the procedure has in a storage. No procedure owns a global. -/
def Procedure.cellsIn (p : Procedure) : Storage → List Cell
  | .argument => p.args.toList
  | .localVar => p.locals.toList
  | .captured => p.captured.toList
  | .global => []

/-- Where a function tells elements apart, the first with a value is the only one. -/
theorem find?_eq_some_iff_of_injOn {α β : Type} [DecidableEq β] {f : α → β} {xs : List α}
    (h : ∀ x ∈ xs, ∀ y ∈ xs, f x = f y → x = y) {b : β} {x : α} :
    xs.find? (fun y => f y = b) = some x ↔ x ∈ xs ∧ f x = b := by
  have hfound : ∀ y, xs.find? (fun y => f y = b) = some y → y ∈ xs ∧ f y = b := fun y hy =>
    ⟨List.mem_of_find?_eq_some hy, by simpa using List.find?_some hy⟩
  refine ⟨hfound x, fun ⟨hx, hb⟩ => ?_⟩
  cases hfind : xs.find? (fun y => f y = b) with
  | none => exact absurd hb (by simpa using List.find?_eq_none.mp hfind x hx)
  | some y =>
      obtain ⟨hy, hyb⟩ := hfound y hfind
      rw [h y hy x hx (hyb.trans hb.symm)]

/-- A cell is looked for among the captured ones, the locals and the arguments, in this order. -/
theorem Procedure.cellOf?_eq (p : Procedure) (decl : DeclId) (skipArgs : Bool) :
    p.cellOf? decl skipArgs =
      (p.cellsIn .captured ++ (p.cellsIn .localVar ++
        if skipArgs then [] else p.cellsIn .argument)).find? (fun c => c.decl = decl) := by
  unfold cellOf? cellsIn
  simp only [List.find?_append, Array.find?_toList, Option.orElse_eq_orElse, Option.orElse_eq_or]
  cases skipArgs <;> simp

namespace Script

/-! ## What is said of the cells -/

/-- What a declaration says of its cell, where others are declared before. -/
structure CellSpec.Describes (spec : CellSpec) (earlier : List CellSpec) (c : Cell) : Prop where
  storage_eq : c.storage = spec.storage
  name_eq : c.name = some spec.name
  refCounted_eq : c.refCounted = spec.refCounted
  captured_eq : c.captured = spec.captured
  written_eq : c.written = spec.written
  /-- The declaration's own id, or else its position. -/
  decl_eq : c.decl.toNat = spec.declId earlier.length
  /-- The cell stands behind those declared before in its storage. -/
  index_eq : c.index = earlier.countP (·.storage = spec.storage)

/-- The cell that a table has for the declaration at a position of the script. -/
def DeclaredAt (s : Script) (cells : CellTable) (i : Nat) (c : Cell) : Prop :=
  ∃ spec, s.cells[i]? = some spec ∧ cells[spec.name]? = some c

/-- The table and the lists of the procedure have the cells that the script declares. -/
structure Tabulates (s : Script) (cells : CellTable) (p : Procedure) : Prop where
  describes : ∀ (i : Nat) (spec : CellSpec), s.cells[i]? = some spec →
    ∃ c, cells[spec.name]? = some c ∧ spec.Describes (s.cells.take i) c
  isDeclared : ∀ (name : String) (c : Cell), cells[name]? = some c → ∃ i, s.DeclaredAt cells i c
  /-- The procedure has the cells of each storage of its own, in the order of the declarations. -/
  cellsIn_eq : ∀ storage, storage ≠ .global → (p.cellsIn storage).map some =
    (s.cells.filter (·.storage = storage)).map fun spec => cells[spec.name]?
  index_eq : ∀ (storage : Storage) (i : Nat) (c : Cell), (p.cellsIn storage)[i]? = some c →
    c.index = i
  /-- Whatever their names, cells of different declarations are different slots. -/
  sameSlot : ∀ (i j : Nat) (c c' : Cell), s.DeclaredAt cells i c → s.DeclaredAt cells j c' →
    c.SameSlot c' → i = j
  cellOf?_eq_some_iff : ∀ (decl : DeclId) (c : Cell), p.cellOf? decl false = some c ↔
    (∃ i, s.DeclaredAt cells i c) ∧ c.storage ≠ .global ∧ c.decl = decl
  cellOf?_skipArgs : ∀ (decl : DeclId) (c : Cell), p.cellOf? decl true = some c ↔
    p.cellOf? decl false = some c ∧ c.storage ≠ .argument

/-! ## Cells by position -/

theorem getElem?_cellsOf (specs : List CellSpec) (i : Nat) :
    (cellsOf specs)[i]? = specs[i]?.map fun spec => (spec.declaration i).cell
      ((specs.take i).countP (·.storage = spec.storage)) spec.storage := by
  unfold cellsOf
  rw [List.getElem?_map, List.getElem?_zipIdx, Option.map_map, Nat.zero_add]
  rfl

/-- What a declaration says holds of the cell at its position. -/
theorem describes_of_getElem? {specs : List CellSpec} (hsize : specs.length < UInt32.size) {i : Nat}
    {c : Cell} (hi : (cellsOf specs)[i]? = some c) :
    ∃ spec, specs[i]? = some spec ∧ spec.Describes (specs.take i) c := by
  rw [getElem?_cellsOf, Option.map_eq_some_iff] at hi
  obtain ⟨spec, hspec, rfl⟩ := hi
  have hlt := (List.getElem?_eq_some_iff.mp hspec).1
  refine ⟨spec, hspec, rfl, rfl, rfl, rfl, rfl, ?_, rfl⟩
  rw [List.length_take, Nat.min_eq_left (Nat.le_of_lt hlt)]
  exact toNat_decl spec (Nat.lt_trans hlt hsize)

/-- Each cell stands in its storage at its index. -/
theorem index_of_getElem?_cellsIn {specs : List CellSpec} {storage : Storage} {i : Nat} {c : Cell}
    (hi : (cellsIn specs storage)[i]? = some c) : c.index = i := by
  induction specs using List.reverseRecOn with
  | nil => cases hi
  | append_singleton specs spec ih =>
      rw [cellsIn_concat] at hi
      by_cases h : spec.storage = storage
      · subst h
        rw [if_pos rfl] at hi
        rcases getElem?_concat_eq_some.mp hi with hi | ⟨rfl, rfl⟩
        · exact ih hi
        · exact (length_cellsIn specs spec.storage).symm
      · rw [if_neg h, List.append_nil] at hi
        exact ih hi

/-! ## Cells by name and by declaration id -/

section Tables

variable {s : Script} {d : Declared}

/-- No two declarations have the same id. -/
theorem nodup_decls (hsize : s.cells.length < UInt32.size) (h : s.declared = .ok d) :
    (s.allCells.map (·.decl)).Nodup := by
  obtain ⟨header, specs, body⟩ := s
  unfold allCells
  induction specs using List.reverseRecOn generalizing d with
  | nil => exact List.nodup_nil
  | append_singleton specs spec ih =>
      have hlt : specs.length < UInt32.size := Nat.lt_of_succ_lt (by simpa using hsize)
      rw [declared_concat] at h
      obtain ⟨d', hspecs, hspec⟩ := except_bind_eq_ok.mp h
      obtain ⟨hfresh, -, -⟩ := declare_eq_ok.mp hspec
      rw [takesIds_of_declared hlt hspecs] at hfresh
      rw [cellsOf_concat, List.map_append, List.nodup_append]
      refine ⟨ih hlt hspecs, List.nodup_singleton _, ?_⟩
      rintro id hid _ hlast rfl
      obtain ⟨c, hc, rfl⟩ := List.mem_map.mp hid
      obtain ⟨i, hi⟩ := List.mem_iff_getElem?.mp hc
      obtain ⟨x, hx, hdescribes⟩ := describes_of_getElem? hlt hi
      have hlast : c.decl = (spec.declaration specs.length).decl := List.mem_singleton.mp hlast
      have hid : x.declId i = c.decl.toNat := by
        rw [hdescribes.decl_eq, List.length_take,
          Nat.min_eq_left (Nat.le_of_lt (List.getElem?_eq_some_iff.mp hx).1)]
      rw [List.any_eq_false, ← hlast] at hfresh
      exact hfresh (x, i) (List.mem_zipIdx_iff_getElem?.mpr hx) (by simpa using hid)

/-- The table has the cells of the declarations, by their names. -/
theorem getElem?_cells_eq_some_iff (h : s.declared = .ok d) {name : String} {c : Cell} :
    d.cells[name]? = some c ↔ c ∈ s.allCells ∧ c.name = some name := by
  rw [getElem?_cells_eq h, cellNamed]
  exact find?_eq_some_iff_of_injOn fun x hx y hy =>
    List.inj_on_of_nodup_map (nodup_names h) hx hy

/-- The table finds the cell at the position of its declaration. -/
theorem getElem?_cells_name (h : s.declared = .ok d) {i : Nat} {spec : CellSpec}
    (hi : s.cells[i]? = some spec) : d.cells[spec.name]? = s.allCells[i]? := by
  have hcell := getElem?_cellsOf s.cells i
  rw [hi, Option.map_some] at hcell
  rw [allCells, hcell, getElem?_cells_eq_some_iff h]
  exact ⟨List.mem_of_getElem? hcell, rfl⟩

theorem declaredAt_iff (h : s.declared = .ok d) {i : Nat} {c : Cell} :
    s.DeclaredAt d.cells i c ↔ s.allCells[i]? = some c := by
  constructor
  · rintro ⟨spec, hi, hc⟩
    rwa [← getElem?_cells_name h hi]
  · intro hi
    have hspec := hi
    rw [allCells, getElem?_cellsOf, Option.map_eq_some_iff] at hspec
    obtain ⟨spec, hspec, -⟩ := hspec
    exact ⟨spec, hspec, by rwa [getElem?_cells_name h hspec]⟩

theorem exists_declaredAt_iff (h : s.declared = .ok d) {c : Cell} :
    (∃ i, s.DeclaredAt d.cells i c) ↔ c ∈ s.allCells := by
  simp only [declaredAt_iff h, List.mem_iff_getElem?]

/-- The cells of a storage are those the table has for the declarations in it. -/
theorem map_some_cellsIn (h : s.declared = .ok d) (storage : Storage) :
    (Script.cellsIn s.cells storage).map some =
      (s.cells.filter (·.storage = storage)).map fun spec => d.cells[spec.name]? := by
  have hspecs : s.cells.filter (·.storage = storage) =
      (s.cells.zipIdx.filter fun x => x.1.storage = storage).map Prod.fst := by
    conv_lhs => rw [← List.zipIdx_map_fst 0 s.cells]
    exact List.filter_map
  rw [hspecs, cellsIn, cellsOf, List.filter_map, List.map_map, List.map_map]
  refine List.map_congr_left ?_
  rintro ⟨spec, i⟩ hx
  have hi := List.mem_zipIdx_iff_getElem?.mp (List.mem_filter.mp hx).1
  have hcell := getElem?_cells_name h hi
  rw [allCells, getElem?_cellsOf, hi] at hcell
  exact hcell.symm

/-! ## The cells of the procedure -/

theorem cellsIn_of_lower {p : Procedure} (h : s.lower = .ok p) {storage : Storage}
    (hstorage : storage ≠ .global) : p.cellsIn storage = cellsIn s.cells storage := by
  obtain ⟨d, m, hd, hrun, rfl⟩ := emitted_of_lower h
  have hframe := hrun.continuesTo.frame_eq
  rw [hframe, (declares_of_declared hd).procedure_eq]
  cases storage with
  | global => exact absurd rfl hstorage
  | _ => rfl

/-- The cells a procedure is searched for are cells of the script, the globals left out. -/
theorem mem_cellsIn_iff {c : Cell} {storage : Storage} :
    c ∈ cellsIn s.cells storage ↔ c ∈ s.allCells ∧ c.storage = storage := by
  rw [cellsIn, List.mem_filter, decide_eq_true_eq]
  rfl

theorem cellOf?_eq_some_iff (hsize : s.cells.length < UInt32.size) {p : Procedure}
    (h : s.lower = .ok p) {decl : DeclId} {skipArgs : Bool} {c : Cell} :
    p.cellOf? decl skipArgs = some c ↔ (c ∈ s.allCells ∧ c.storage ≠ .global ∧
      (skipArgs = true → c.storage ≠ .argument)) ∧ c.decl = decl := by
  obtain ⟨d, hd, -⟩ := except_bind_eq_ok.mp h
  have hmem : ∀ x, x ∈ p.cellsIn .captured ++ (p.cellsIn .localVar ++
      if skipArgs then [] else p.cellsIn .argument) ↔ x ∈ s.allCells ∧ x.storage ≠ .global ∧
        (skipArgs = true → x.storage ≠ .argument) := by
    intro x
    rw [cellsIn_of_lower h (by decide), cellsIn_of_lower h (by decide),
      cellsIn_of_lower h (by decide)]
    cases skipArgs <;> cases hx : x.storage <;> simp [mem_cellsIn_iff, hx]
  rw [p.cellOf?_eq, find?_eq_some_iff_of_injOn, hmem]
  intro x hx y hy
  exact List.inj_on_of_nodup_map (nodup_decls hsize hd) ((hmem x).mp hx).1 ((hmem y).mp hy).1

end Tables

/-- Lowering a script makes a cell for each declaration, as long as every position is a declaration
id. The table of the cells finds it by its name and the procedure by its id. -/
theorem tabulates_of_lower {s : Script} {p : Procedure} (hsize : s.cells.length < UInt32.size)
    (h : s.lower = .ok p) : ∃ d, s.declared = .ok d ∧ s.Tabulates d.cells p := by
  obtain ⟨d, hd, -⟩ := except_bind_eq_ok.mp h
  refine ⟨d, hd, ?_⟩
  constructor
  case describes =>
    intro i spec hi
    have hcell := getElem?_cellsOf s.cells i
    rw [hi, Option.map_some] at hcell
    obtain ⟨spec', hi', hdescribes⟩ := describes_of_getElem? hsize hcell
    obtain rfl := Option.some.inj (hi.symm.trans hi')
    exact ⟨_, (getElem?_cells_name hd hi).trans hcell, hdescribes⟩
  case isDeclared =>
    intro name c hc
    exact (exists_declaredAt_iff hd).mpr ((getElem?_cells_eq_some_iff hd).mp hc).1
  case cellsIn_eq =>
    intro storage hstorage
    rw [cellsIn_of_lower h hstorage, map_some_cellsIn hd]
  case index_eq =>
    intro storage i c hi
    cases storage with
    | global => cases hi
    | _ =>
        rw [cellsIn_of_lower h (by decide)] at hi
        exact index_of_getElem?_cellsIn hi
  case sameSlot =>
    intro i j c c' hi hj hsame
    rw [declaredAt_iff hd] at hi hj
    have hdecl : c.decl = c'.decl := congrArg (·.decl) hsame
    obtain rfl := List.inj_on_of_nodup_map (nodup_decls hsize hd) (List.mem_of_getElem? hi)
      (List.mem_of_getElem? hj) hdecl
    have hlt := (List.getElem?_eq_some_iff.mp hi).1
    exact (List.getElem?_inj hlt (nodup_allCells hd)).mp (hi.trans hj.symm)
  case cellOf?_eq_some_iff =>
    intro decl c
    rw [cellOf?_eq_some_iff hsize h, exists_declaredAt_iff hd]
    simp [and_assoc]
  case cellOf?_skipArgs =>
    intro decl c
    rw [cellOf?_eq_some_iff hsize h, cellOf?_eq_some_iff hsize h]
    simp [and_assoc, and_comm, and_left_comm]

/-- Cells with and without ids of their own. The position of the global would be its id. -/
def mixedIds : Script where
  header := {}
  cells := [⟨"a", .argument, some 10, true, false, false⟩, ⟨"g", .global, none, false, false, true⟩,
    ⟨"b", .localVar, some 0, false, true, true⟩, ⟨"c", .localVar, none, false, false, false⟩]
  body := [.store "c" (.load "g") true, .clearAll]

/-- The argument is found by its id unless arguments are skipped, the second local stands behind the
first and has its position as its id, and the global is not found. -/
theorem tabulates_mixedIds : ∃ p a c, mixedIds.lower = .ok p ∧
    p.cellOf? 10 false = some a ∧ a.name = some "a" ∧ p.cellOf? 10 true = none ∧
      p.cellOf? 3 true = some c ∧ c.name = some "c" ∧ c.index = 1 ∧ p.cellOf? 1 false = none := by
  have hsize : mixedIds.cells.length < UInt32.size := by decide
  obtain ⟨p, hp⟩ : ∃ p, mixedIds.lower = .ok p :=
    (stopsAt_faults hsize).exists_ok_iff.mpr (by decide)
  obtain ⟨d, -, h⟩ := tabulates_of_lower hsize hp
  obtain ⟨a, ha, hadescribes⟩ := h.describes 0 _ rfl
  obtain ⟨c, hc, hcdescribes⟩ := h.describes 3 _ rfl
  have hafound : p.cellOf? 10 false = some a := (h.cellOf?_eq_some_iff 10 a).mpr
    ⟨⟨0, _, rfl, ha⟩, by simp [hadescribes.storage_eq], UInt32.toNat_inj.mp hadescribes.decl_eq⟩
  have hcfound : p.cellOf? 3 false = some c := (h.cellOf?_eq_some_iff 3 c).mpr
    ⟨⟨3, _, rfl, hc⟩, by simp [hcdescribes.storage_eq], UInt32.toNat_inj.mp hcdescribes.decl_eq⟩
  refine ⟨p, a, c, hp, hafound, hadescribes.name_eq, ?_, ?_, hcdescribes.name_eq,
    hcdescribes.index_eq, ?_⟩
  · refine Option.eq_none_iff_forall_ne_some.mpr fun x hx => ?_
    obtain ⟨hxfound, hxstorage⟩ := (h.cellOf?_skipArgs 10 x).mp hx
    obtain rfl := Option.some.inj (hafound.symm.trans hxfound)
    exact hxstorage hadescribes.storage_eq
  · exact (h.cellOf?_skipArgs 3 c).mpr ⟨hcfound, by simp [hcdescribes.storage_eq]⟩
  · refine Option.eq_none_iff_forall_ne_some.mpr fun x hx => ?_
    obtain ⟨⟨i, spec, hi, hcell⟩, hstorage, hdecl⟩ := (h.cellOf?_eq_some_iff 1 x).mp hx
    obtain ⟨y, hy, hdescribes⟩ := h.describes i spec hi
    obtain rfl := Option.some.inj (hcell.symm.trans hy)
    have hid := hdescribes.decl_eq
    rw [hdecl] at hid
    -- Only the global has the id 1.
    rcases i with _ | _ | _ | _ | i
    · obtain rfl := Option.some.inj hi
      exact absurd hid (by decide)
    · obtain rfl := Option.some.inj hi
      exact hstorage hdescribes.storage_eq
    · obtain rfl := Option.some.inj hi
      exact absurd hid (by decide)
    · obtain rfl := Option.some.inj hi
      exact absurd hid (by decide)
    · cases hi

end Script

end StackIR
