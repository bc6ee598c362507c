import StackIR.Proofs.Built
import StackIR.Proofs.Declaring
import StackIR.Proofs.Lowering

/-!
# Lowering statements

Lowering a script emits its statements one after the other. `Emits` says all that one statement can
do to the procedure and its labels, guards included, and `Emitted` is a run of such steps: the
lowering of a script that succeeds is one (`emitted_of_lower`), so a property of the result is shown
by induction on the run. Every lowered procedure is built (`built_of_lower`).
-/

namespace StackIR.Script

/-! ## One statement -/

/-- The node a statement evaluates, made from the first arena to the second. -/
inductive Evaluates (cells : CellTable) : Stmt → Arena → ExprId → Arena → Prop where
  | expr {e : Expr} {a b : Arena} {x : ExprId} (h : lowerExpr cells e a = .ok (x, b)) :
      Evaluates cells (.expr e) a x b
  | init {name : String} {value : Expr} {c : Cell} {a b : Arena} {x : ExprId}
      (hc : cells[name]? = some c) (h : lowerExpr cells value a = .ok (x, b)) :
      Evaluates cells (.store name value true) a (c.storeSlot x b).1 (c.storeSlot x b).2
  | assign {name : String} {value : Expr} {c : Cell} {a b : Arena} {x : ExprId}
      (hc : cells[name]? = some c) (h : lowerExpr cells value a = .ok (x, b)) :
      Evaluates cells (.store name value false) a (c.assign x b).1 (c.assign x b).2

inductive Carries (cells : CellTable) : Option Expr → Arena → Option ExprId → Arena → Prop where
  | nothing {a : Arena} : Carries cells none a none a
  | value {e : Expr} {a b : Arena} {x : ExprId} (h : lowerExpr cells e a = .ok (x, b)) :
      Carries cells (some e) a (some x) b

def Emission.withArena (m : Emission) (arena : Arena) : Emission :=
  { m with procedure := { m.procedure with arena } }

/-- What one statement of the script `s` does. -/
inductive Emits (s : Script) (cells : CellTable) (m : Emission) : Stmt → Emission → Prop where
  | evaluate {st : Stmt} {x : ExprId} {b : Arena} (h : Evaluates cells st m.procedure.arena x b) :
      Emits s cells m st ((m.withArena b).emit (.expr x))
  | label (name : String) :
      Emits s cells m (.label name) ((m.label name).2.emit (.label (m.label name).1))
  | jump (target : String) (mode : JumpMode) {value : Option Expr} {x : Option ExprId} {b : Arena}
      (h : Carries cells value m.procedure.arena x b) :
      Emits s cells m (.jump target mode value)
        (((m.label target).2.withArena b).emit (.jump (.label (m.label target).1) mode x))
  | stackEmpty : Emits s cells m .stackEmpty (m.emit .stackEmpty)
  | exit {st : Stmt} (hst : (∃ name, st = .clear name) ∨ st = .clearAll)
      (howned : ∀ c ∈ s.exits st, c.isOwned = true) : Emits s cells m st
        { m with procedure := (s.exits st).foldl Procedure.release m.procedure }

/-- The procedure has the frame that the script declares. -/
structure Emission.Frames (s : Script) (m : Emission) : Prop where
  isOwned : ∀ c, c ∈ m.procedure.locals ∨ c ∈ m.procedure.args → c.isOwned = true
  releasable_eq : m.procedure.releasable = s.exits .clearAll

theorem Emission.label_procedure (m : Emission) (name : String) :
    (m.label name).2.procedure =
      { m.procedure with labels := (m.label name).2.procedure.labels } := by
  unfold label
  cases m.labels[name]? <;> rfl

theorem build_eq_ok {m m' : Emission} {f : StateT Arena (Except LowerError) ExprId} {x : ExprId} :
    m.build f = .ok (x, m') ↔ ∃ b, f m.procedure.arena = .ok (x, b) ∧ m' = m.withArena b := by
  unfold Emission.build
  cases f m.procedure.arena with
  | error error => simp
  | ok r => simp [Emission.withArena, Prod.ext_iff, eq_comm, and_comm]

theorem label_withArena (m : Emission) (name : String) :
    (m.label name).2.withArena m.procedure.arena = (m.label name).2 := by
  unfold Emission.withArena Emission.label
  cases m.labels[name]? <;> rfl

theorem Emits.of_lower {s : Script} {cells : CellTable} {m m' : Emission} {st : Stmt}
    (hcells : ∀ name : String, cells[name]? = s.cellNamed name) (hm : m.Frames s)
    (h : m.lower cells st = .ok m') : Emits s cells m st m' := by
  cases st with
  | expr e =>
      simp only [Emission.lower] at h
      obtain ⟨⟨x, m₁⟩, hbuild, h⟩ := except_bind_eq_ok.mp h
      obtain ⟨b, hb, rfl⟩ := build_eq_ok.mp hbuild
      obtain rfl := Except.ok.inj h
      exact .evaluate (.expr hb)
  | store name value isInit =>
      simp only [Emission.lower] at h
      obtain ⟨c, hc, h⟩ := except_bind_eq_ok.mp h
      obtain ⟨⟨y, m₁⟩, hbuild, h⟩ := except_bind_eq_ok.mp h
      obtain ⟨b, hb, rfl⟩ := build_eq_ok.mp hbuild
      obtain rfl := Except.ok.inj h
      obtain ⟨x, b', hvalue, hstore⟩ := bind_eq_ok.mp hb
      have hc := findCell_eq_ok.mp hc
      cases isInit with
      | true =>
          obtain ⟨rfl, rfl⟩ := Prod.ext_iff.mp (Except.ok.inj hstore)
          exact .evaluate (.init hc hvalue)
      | false =>
          obtain ⟨rfl, rfl⟩ := Prod.ext_iff.mp (Except.ok.inj hstore)
          exact .evaluate (.assign hc hvalue)
  | label name =>
      obtain rfl := Except.ok.inj h
      exact .label name
  | jump target mode value =>
      cases value with
      | none =>
          obtain rfl := Except.ok.inj h
          have hjump : Emits s cells m (.jump target mode none) _ := .jump target mode .nothing
          rw [label_withArena] at hjump
          exact hjump
      | some value =>
          simp only [Emission.lower] at h
          obtain ⟨⟨x, m₁⟩, hbuild, h⟩ := except_bind_eq_ok.mp h
          obtain ⟨b, hb, rfl⟩ := build_eq_ok.mp hbuild
          obtain rfl := Except.ok.inj h
          rw [m.label_procedure target] at hb
          exact .jump target mode (.value hb)
  | stackEmpty =>
      obtain rfl := Except.ok.inj h
      exact .stackEmpty
  | clear name =>
      simp only [Emission.lower] at h
      obtain ⟨c, hc, h⟩ := except_bind_eq_ok.mp h
      have hnamed := (hcells name).symm.trans (findCell_eq_ok.mp hc)
      unfold Emission.release at h
      rw [Procedure.releaseCell_run] at h
      cases howned : c.isOwned with
      | false =>
          rw [howned] at h
          cases h
      | true =>
          rw [howned] at h
          obtain rfl := Except.ok.inj h
          have hexit : Emits s cells m (.clear name) _ :=
            .exit (Or.inl ⟨name, rfl⟩) fun d hd => by
              have hdc : d = c := by simpa [exits, hnamed] using (List.mem_filter.mp hd).1
              rw [hdc]
              exact howned
          cases hmanaged : c.isManaged with
          | true => simpa [exits, hnamed, hmanaged] using hexit
          | false => simpa [exits, hnamed, hmanaged] using hexit
  | clearAll =>
      simp only [Emission.lower] at h
      unfold Emission.release at h
      rw [Procedure.releaseAll_run hm.isOwned, hm.releasable_eq] at h
      obtain rfl := Except.ok.inj h
      exact .exit (Or.inr rfl) fun c hc => (mem_exits_clearAll.mp hc).2.2.1

/-! ## Runs -/

/-- What the statements of the script `s` do one after the other. -/
inductive Emitted (s : Script) (cells : CellTable) (m : Emission) :
    List Stmt → Emission → Prop where
  | nil : Emitted s cells m [] m
  | concat {ss : List Stmt} {m' m'' : Emission} {st : Stmt} (hrun : Emitted s cells m ss m')
      (hstep : Emits s cells m' st m'') : Emitted s cells m (ss ++ [st]) m''

theorem frame_foldl_release (cs : List Cell) : ∀ (p : Procedure),
    (cs.foldl Procedure.release p).locals = p.locals ∧
      (cs.foldl Procedure.release p).args = p.args ∧
        (cs.foldl Procedure.release p).isRoot = p.isRoot := by
  induction cs with
  | nil => exact fun p => ⟨rfl, rfl, rfl⟩
  | cons c cs ih => exact fun p => ih (p.release c)

theorem frame_label (m : Emission) (name : String) :
    (m.label name).2.procedure.locals = m.procedure.locals ∧
      (m.label name).2.procedure.args = m.procedure.args ∧
        (m.label name).2.procedure.isRoot = m.procedure.isRoot := by
  rw [m.label_procedure name]
  exact ⟨rfl, rfl, rfl⟩

theorem Emits.frames {s : Script} {cells : CellTable} {m m' : Emission} {st : Stmt}
    (h : Emits s cells m st m') (hm : m.Frames s) : m'.Frames s := by
  have hsame : m'.procedure.locals = m.procedure.locals ∧ m'.procedure.args = m.procedure.args ∧
      m'.procedure.isRoot = m.procedure.isRoot := by
    cases h with
    | evaluate _ => exact ⟨rfl, rfl, rfl⟩
    | label name => exact frame_label m name
    | jump target mode _ => exact frame_label m target
    | stackEmpty => exact ⟨rfl, rfl, rfl⟩
    | exit _ _ => exact frame_foldl_release (s.exits st) m.procedure
  obtain ⟨hlocals, hargs, hroot⟩ := hsame
  refine ⟨fun c hc => hm.isOwned c ?_, ?_⟩
  · rwa [← hlocals, ← hargs]
  · rw [← hm.releasable_eq]
    simp only [Procedure.releasable, hlocals, hargs, hroot]

theorem frames_declared {s : Script} {d : Declared} (h : s.declared = .ok d) :
    Emission.Frames s { procedure := d.procedure } where
  isOwned c hc := by
    rw [(declares_of_declared h).procedure_eq] at hc
    simp only [cellsIn, List.mem_toArray, List.mem_filter, decide_eq_true_eq] at hc
    rcases hc with ⟨-, hc⟩ | ⟨-, hc⟩ <;> simp [Cell.isOwned, hc]
  releasable_eq := (exits_clearAll_eq h).symm

theorem emitted_of_foldlM {s : Script} {cells : CellTable} {m : Emission} {ss : List Stmt}
    (hcells : ∀ name : String, cells[name]? = s.cellNamed name) (hm : m.Frames s) :
    ∀ {m' : Emission}, ss.foldlM (Emission.lower cells) m = .ok m' →
      Emitted s cells m ss m' ∧ m'.Frames s := by
  induction ss using List.reverseRecOn with
  | nil =>
      intro m' h
      obtain rfl := Except.ok.inj h
      exact ⟨.nil, hm⟩
  | append_singleton ss st ih =>
      intro m' h
      rw [List.foldlM_append] at h
      obtain ⟨m₁, hss, hst⟩ := except_bind_eq_ok.mp h
      obtain ⟨hrun, hframes⟩ := ih hss
      have hst : (m₁.lower cells st >>= pure) = .ok m' := hst
      rw [bind_pure] at hst
      have hstep := Emits.of_lower hcells hframes hst
      exact ⟨.concat hrun hstep, hstep.frames hframes⟩

/-- The lowered procedure comes from the declared one by a run of the body. -/
theorem emitted_of_lower {s : Script} {p : Procedure} (h : s.lower = .ok p) :
    ∃ d m, s.declared = .ok d ∧ Emitted s d.cells { procedure := d.procedure } s.body m ∧
      m.procedure = p := by
  unfold Script.lower at h
  obtain ⟨d, hd, h⟩ := except_bind_eq_ok.mp h
  obtain ⟨m, hm, h⟩ := except_bind_eq_ok.mp h
  exact ⟨d, m, hd, (emitted_of_foldlM (getElem?_cells_eq hd) (frames_declared hd) hm).1,
    Except.ok.inj h⟩

/-! ## Lowered procedures are built -/

private theorem buildsToCases (cells : CellTable) :
    LoweringCases cells (fun _ a _ b => a.BuildsTo b) (fun _ a _ b => a.BuildsTo b) where
  leaf {e n a} h := by
    cases e with
    | num value | bool value | pointer label info | jumpValue =>
        obtain rfl := Option.some.inj h
        exact Arena.buildsTo_add rfl (by simp [Node.operands])
    | _ => cases h
  load _ := Cell.buildsTo_load _ _
  call hargs ih := ih.trans
    (Arena.buildsTo_borrowCall _ _ _ fun x hx => ((appends_lowerExprs hargs).mem_range x hx).2)
  procCall hargs ih := ih.trans
    (Arena.buildsTo_add rfl fun x hx => ((appends_lowerExprs hargs).mem_range x hx).2)
  field he ih := ih.trans
    (Arena.buildsTo_add rfl (by simpa [Node.operands] using (appends_lowerExpr he).lt_size))
  sequence hitems ih := ih.trans
    (Arena.buildsTo_add rfl fun x hx => ((appends_lowerExprs hitems).mem_range x hx).2)
  nil := Relation.ReflTransGen.refl
  cons _ _ ihe ihes := ihe.trans ihes

/-- What a statement evaluates is built from nodes before, and its node is there. -/
theorem Evaluates.buildsTo {cells : CellTable} {st : Stmt} {a b : Arena} {x : ExprId}
    (h : Evaluates cells st a x b) : a.BuildsTo b ∧ x < b.size := by
  cases h with
  | expr h => exact ⟨(buildsToCases cells).of_lowerExpr h, (appends_lowerExpr h).lt_size⟩
  | init hc h =>
      exact ⟨((buildsToCases cells).of_lowerExpr h).trans
        (Cell.buildsTo_storeSlot _ (appends_lowerExpr h).lt_size),
        (Cell.appends_storeSlot ..).lt_size⟩
  | assign hc h =>
      exact ⟨((buildsToCases cells).of_lowerExpr h).trans
        (Cell.buildsTo_assign _ (appends_lowerExpr h).lt_size), (Cell.appends_assign ..).lt_size⟩

theorem Carries.buildsTo {cells : CellTable} {value : Option Expr} {a b : Arena}
    {x : Option ExprId} (h : Carries cells value a x b) :
    a.BuildsTo b ∧ ∀ e, x = some e → e < b.size := by
  cases h with
  | nothing => exact ⟨Relation.ReflTransGen.refl, by simp⟩
  | value h =>
      refine ⟨(buildsToCases cells).of_lowerExpr h, fun e he => ?_⟩
      obtain rfl := Option.some.inj he
      exact (appends_lowerExpr h).lt_size

theorem buildsTo_label (m : Emission) (name : String) :
    m.procedure.BuildsTo (m.label name).2.procedure := by
  unfold Emission.label
  cases m.labels[name]? with
  | none => exact Relation.ReflTransGen.single (.newLabel name)
  | some l => exact Relation.ReflTransGen.refl

theorem Emits.buildsTo {s : Script} {cells : CellTable} {m m' : Emission} {st : Stmt}
    (h : Emits s cells m st m') : m.procedure.BuildsTo m'.procedure := by
  cases h with
  | evaluate h =>
      obtain ⟨hbuild, hlt⟩ := h.buildsTo
      refine (Procedure.buildsTo_build hbuild).trans (Procedure.buildsTo_emit fun e he => ?_)
      obtain rfl := Option.some.inj he
      exact hlt
  | label name =>
      exact (buildsTo_label m name).trans (Procedure.buildsTo_emit (by simp [StackIR.Stmt.expr?]))
  | jump target mode h =>
      obtain ⟨hbuild, hlt⟩ := h.buildsTo
      have harena : (m.label target).2.procedure.arena = m.procedure.arena := by
        rw [m.label_procedure target]
      rw [← harena] at hbuild
      exact (buildsTo_label m target).trans
        ((Procedure.buildsTo_build hbuild).trans (Procedure.buildsTo_emit hlt))
  | stackEmpty => exact Procedure.buildsTo_emit (by simp [StackIR.Stmt.expr?])
  | exit _ _ => exact Procedure.buildsTo_foldl_release _ _

theorem Emitted.buildsTo {s : Script} {cells : CellTable} {m m' : Emission} {ss : List Stmt}
    (h : Emitted s cells m ss m') : m.procedure.BuildsTo m'.procedure := by
  induction h with
  | nil => exact Relation.ReflTransGen.refl
  | concat _ hstep ih => exact ih.trans hstep.buildsTo

theorem buildsTo_declare {d d' : Declared} {spec : CellSpec × Nat} (h : d.declare spec = .ok d') :
    d.procedure.BuildsTo d'.procedure := by
  obtain ⟨-, -, rfl⟩ := declare_eq_ok.mp h
  unfold Declared.declareFresh Declared.addCell
  cases spec.1.storage with
  | argument => exact Relation.ReflTransGen.single (.addArgument _)
  | localVar => exact Relation.ReflTransGen.single (.addLocal _)
  | captured => exact Relation.ReflTransGen.single (.addCaptured _)
  | global => exact Relation.ReflTransGen.refl

theorem buildsTo_declared {s : Script} {d : Declared} (h : s.declared = .ok d) :
    s.header.procedure.BuildsTo d.procedure := by
  have hfold : ∀ (specs : List (CellSpec × Nat)) (d d' : Declared),
      specs.foldlM Declared.declare d = .ok d' → d.procedure.BuildsTo d'.procedure := by
    intro specs
    induction specs with
    | nil =>
        intro d d' h
        obtain rfl := Except.ok.inj h
        exact Relation.ReflTransGen.refl
    | cons spec specs ih =>
        intro d d' h
        rw [List.foldlM_cons] at h
        obtain ⟨d₁, hd₁, h⟩ := except_bind_eq_ok.mp h
        exact (buildsTo_declare hd₁).trans (ih d₁ d' h)
  exact hfold _ _ _ h

/-- A lowered procedure is built, whatever the script. -/
theorem built_of_lower {s : Script} {p : Procedure} (h : s.lower = .ok p) : p.Built := by
  obtain ⟨d, m, hd, hrun, rfl⟩ := emitted_of_lower h
  have hheader : Procedure.BuildsTo { id := s.header.id, name := s.header.name }
      s.header.procedure := Relation.ReflTransGen.single (.nest s.header.parent s.header.isRoot)
  exact ⟨_, _, hheader.trans ((buildsTo_declared hd).trans hrun.buildsTo)⟩

end StackIR.Script
