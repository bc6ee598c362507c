import StackIR.Proofs.Accounting
import StackIR.Proofs.Emitting
import StackIR.Proofs.Linking

/-!
# Reference counts of lowered scripts

The retains and releases of a lowered procedure are those that its script calls for: a counted load
retains, and what is released is an argument that a call only borrowed or a cell that a statement
gives up. Each statement has a stretch of the arena of its own, so the accounts of the statements
(`Emits.accounts`) together are one of the script (`Emitted.accounts`, `accounts_of_lower`).
-/

namespace StackIR.Script

open Arena

/-! ## The parts of the body -/

def Stmt.value? : Stmt → Option Expr
  | .expr e | .store _ e _ => some e
  | .jump _ _ value => value
  | .label _ | .stackEmpty | .clear _ | .clearAll => none

/-- The part of a statement's expression that a path leads to. -/
def Stmt.at? (st : Stmt) (π : Path) : Option Expr :=
  st.value?.bind fun e => e.at? π

/-- The part of the body's expressions that a path leads to, from the position of its statement. -/
def at? (s : Script) : Path → Option Expr
  | [] => none
  | k :: π => (s.body[k]?).bind fun st => st.at? π

theorem at?_append_of_eq_some {s : Script} {π : Path} {e : Expr} (h : s.at? π = some e)
    (ρ : Path) : s.at? (π ++ ρ) = e.at? ρ := by
  cases π with
  | nil => cases h
  | cons k π =>
      obtain ⟨st, hst, h⟩ := Option.bind_eq_some_iff.mp h
      obtain ⟨e', he', h⟩ := Option.bind_eq_some_iff.mp h
      show (s.body[k]?).bind (fun st => st.at? (π ++ ρ)) = _
      rw [hst, Option.bind_some, Stmt.at?, he', Option.bind_some, Expr.at?_append, h,
        Option.bind_some]

/-! ## One statement -/

/-- The release of a cell that is given up: it stands in a stretch of the arena, right behind the
slot it is over, and is a statement of the body. -/
structure GivenUp (c : Arena) (body : List StackIR.Stmt) (lo hi : Nat) (d : Cell) (e : ExprId) :
    Prop where
  le : lo ≤ e
  lt : e < hi
  stmt_mem : StackIR.Stmt.expr e ∈ body
  node : ∃ slot, e = slot + 1 ∧ c.get? e = some (.release slot) ∧ c.get? slot = some (.cell d)

/-- The nodes that give up one cell. -/
theorem get?_release {p : Procedure} {d : Cell} {c : Arena} (hc : (p.release d).arena.GrowsTo c) :
    c.get? p.arena.size = some (.cell d) ∧
      c.get? (p.arena.size + 1) = some (.release p.arena.size) := by
  have hrelease : ((p.arena.add (.cell d)).2.add (.release p.arena.size)).2.GrowsTo c := hc
  refine ⟨((growsTo_add _ _).trans hrelease).get?_size, ?_⟩
  rw [← size_add p.arena (.cell d)]
  exact hrelease.get?_size

/-- Giving up cells makes a release for each, which is a statement, and nothing that retains. -/
theorem exists_givenUp {cs : List Cell} (hcs : cs.Nodup) {c : Arena} {body : List StackIR.Stmt} :
    ∀ {p : Procedure}, (cs.foldl Procedure.release p).arena.GrowsTo c →
      (cs.foldl Procedure.release p).body.toList ⊆ body → ∃ exit : Cell → ExprId,
        (∀ d ∈ cs, GivenUp c body p.arena.size (cs.foldl Procedure.release p).arena.size d
          (exit d)) ∧
        ∀ (k x : Nat), p.arena.size ≤ k → k < (cs.foldl Procedure.release p).arena.size →
          c.get? k ≠ some (.retain x) ∧ (c.get? k = some (.release x) →
            ∃ d, d ∈ cs ∧ exit d = k) := by
  induction cs with
  | nil =>
      intro p _ _
      refine ⟨fun _ => 0, by simp, fun k x hlo hhi => ?_⟩
      exact absurd hhi (Nat.not_lt.mpr hlo)
  | cons d cs ih =>
      intro p hc hbody
      obtain ⟨hd, hcs⟩ := List.nodup_cons.mp hcs
      rw [List.foldl_cons] at hc hbody ⊢
      obtain ⟨exit, hexit, hnodes⟩ := ih hcs hc hbody
      obtain ⟨hgrows, hstmts⟩ := (Procedure.buildsTo_foldl_release cs (p.release d)).growsTo
      obtain ⟨hslot, hnode⟩ := get?_release (hgrows.trans hc)
      have hsize : (p.release d).arena.size = p.arena.size + 2 := by
        simp [Procedure.release, Procedure.emit]
      have hstmt : StackIR.Stmt.expr (p.arena.size + 1) ∈ (p.release d).body.toList := by
        simp [Procedure.release, Procedure.emit]
      have hne : ∀ d' ∈ cs, d' ≠ d := by
        rintro d' hd' rfl
        exact hd hd'
      have hle := hgrows.size_le
      rw [hsize] at hle hnodes hexit
      refine ⟨fun d' => if d' = d then p.arena.size + 1 else exit d', fun d' hd' => ?_,
        fun k x hlo hhi => ?_⟩
      · dsimp only
        rcases List.mem_cons.mp hd' with rfl | hd'
        · rw [if_pos rfl]
          exact ⟨Nat.le_succ _, hle, hbody (hstmts.subset hstmt), _, rfl, hnode, hslot⟩
        · rw [if_neg (hne d' hd')]
          exact { hexit d' hd' with le := Nat.le_trans (Nat.le_add_right _ 2) (hexit d' hd').le }
      · rcases Nat.lt_trichotomy k (p.arena.size + 1) with hlt | rfl | hgt
        · obtain rfl : k = p.arena.size := by omega
          rw [hslot]
          exact ⟨by simp, by simp⟩
        · rw [hnode]
          exact ⟨by simp, fun _ => ⟨d, List.mem_cons_self, if_pos rfl⟩⟩
        · obtain ⟨hretain, hrelease⟩ := hnodes k x (by omega) hhi
          refine ⟨hretain, fun hk => ?_⟩
          obtain ⟨d', hd', rfl⟩ := hrelease hk
          exact ⟨d', List.mem_cons_of_mem _ hd', if_neg (hne d' hd')⟩

/-- The account of a statement: that of its expression, and the releases of the cells it gives
up. -/
structure StmtAccounts (s : Script) (c : Arena) (body : List StackIR.Stmt) (st : Stmt)
    (lo hi : Nat) (nodes : Path → PartNodes) (exit : Cell → ExprId) : Prop where
  accounts : Accounts s.cellNamed c st.at? (fun k => ∃ d, d ∈ s.exits st ∧ exit d = k) lo hi nodes
  givenUp : ∀ d ∈ s.exits st, GivenUp c body lo hi d (exit d)
  isOwned : ∀ d ∈ s.exits st, d.isOwned = true

section Statements

variable {s : Script} {cells : CellTable}

/-- What a statement evaluates is accounted for, as what a store adds neither retains nor
releases. -/
theorem Evaluates.accounts {st : Stmt} {a b c : Arena} {x : ExprId}
    (h : Evaluates cells st a x b) (hc : b.GrowsTo c) : s.exits st = [] ∧
      ∃ nodes, Accounts (fun name => cells[name]?) c st.at? (fun _ => False) a.size b.size
        nodes := by
  cases h with
  | expr h =>
      obtain ⟨nodes, -, hnodes⟩ := isAccounted_of_lowerExpr h hc
      exact ⟨rfl, nodes, hnodes⟩
  | @init _ _ d _ b x _ h =>
      have hstore := (d.appends_storeSlot x b).growsTo
      obtain ⟨nodes, -, hnodes⟩ := isAccounted_of_lowerExpr h (hstore.trans hc)
      exact ⟨rfl, nodes, hnodes.extend hstore.size_le (Cell.countsNothing_storeSlot hc)⟩
  | @assign _ _ d _ b x _ h =>
      have hstore := (d.appends_assign x b).growsTo
      obtain ⟨nodes, -, hnodes⟩ := isAccounted_of_lowerExpr h (hstore.trans hc)
      exact ⟨rfl, nodes, hnodes.extend hstore.size_le (Cell.countsNothing_assign hc)⟩

theorem accounts_none {named : String → Option Cell} {c : Arena} {other : Nat → Prop} {lo hi : Nat}
    (h : ∀ (k x : Nat), lo ≤ k → k < hi →
      c.get? k ≠ some (.retain x) ∧ (c.get? k = some (.release x) → other k))
    (nodes : Path → PartNodes) : Accounts named c (fun _ => none) other lo hi nodes where
  stands := by simp
  value_injOn := by simp
  call_injOn := by simp
  retain_cases hlo hhi hk := absurd hk (h _ _ hlo hhi).1
  release_cases hlo hhi hk := Or.inr ((h _ _ hlo hhi).2 hk)

theorem StmtAccounts.of_accounts {c : Arena} {body : List StackIR.Stmt} {st : Stmt} {lo hi : Nat}
    {nodes : Path → PartNodes} (hst : s.exits st = [])
    (h : Accounts s.cellNamed c st.at? (fun _ => False) lo hi nodes) :
    StmtAccounts s c body st lo hi nodes fun _ => 0 where
  accounts := h.imp_other fun _ hfalse => hfalse.elim
  givenUp := by simp [hst]
  isOwned := by simp [hst]

theorem Emits.accounts {m m' : Emission} {st : Stmt} (h : Emits s cells m st m')
    (hcells : ∀ name : String, cells[name]? = s.cellNamed name) (hst : (s.exits st).Nodup)
    {c : Arena} (hc : m'.procedure.arena.GrowsTo c) {body : List StackIR.Stmt}
    (hbody : m'.procedure.body.toList ⊆ body) : ∃ nodes exit,
      StmtAccounts s c body st m.procedure.arena.size m'.procedure.arena.size nodes exit := by
  have hnamed : (fun name => cells[name]?) = s.cellNamed := funext hcells
  have hnothing : ∀ lo, Accounts s.cellNamed c (fun _ => none) (fun _ => False) lo lo
      fun _ => ⟨0, 0, fun _ => 0⟩ := fun lo =>
    accounts_none (fun k x hlo hhi => absurd hhi (Nat.not_lt.mpr hlo)) _
  cases h with
  | evaluate h =>
      obtain ⟨hexits, nodes, hnodes⟩ := h.accounts hc
      rw [hnamed] at hnodes
      exact ⟨nodes, _, .of_accounts hexits hnodes⟩
  | label name =>
      have harena : ((m.label name).2.emit (.label (m.label name).1)).procedure.arena =
          m.procedure.arena := by
        show (m.label name).2.procedure.arena = _
        rw [m.label_procedure name]
      rw [harena]
      exact ⟨_, _, .of_accounts rfl (hnothing _)⟩
  | jump target mode h =>
      cases h with
      | nothing => exact ⟨_, _, .of_accounts rfl (hnothing _)⟩
      | value h =>
          obtain ⟨nodes, -, hnodes⟩ := isAccounted_of_lowerExpr h hc
          rw [hnamed] at hnodes
          exact ⟨nodes, _, .of_accounts rfl hnodes⟩
  | stackEmpty => exact ⟨_, _, .of_accounts rfl (hnothing _)⟩
  | exit hexit howned =>
      obtain ⟨exit, hexits, hnodes⟩ := exists_givenUp hst hc hbody
      have hat : st.at? = fun _ => none := by
        rcases hexit with ⟨name, rfl⟩ | rfl <;> rfl
      refine ⟨fun _ => ⟨0, 0, fun _ => 0⟩, exit, ?_, hexits, howned⟩
      rw [hat]
      exact accounts_none hnodes _

/-! ## Runs -/

/-- There are accounts of statements, whose nodes stand in consecutive stretches. -/
def StmtsAccounted (s : Script) (c : Arena) (body : List StackIR.Stmt) (ss : List Stmt)
    (lo hi : Nat) : Prop :=
  ∃ (cut : Nat → Nat) (nodes : Nat → Path → PartNodes) (exit : Nat → Cell → ExprId),
    cut 0 = lo ∧ cut ss.length = hi ∧ ∀ (k : Nat) (st : Stmt), ss[k]? = some st →
      cut k ≤ cut (k + 1) ∧
        StmtAccounts s c body st (cut k) (cut (k + 1)) (nodes k) (exit k)

theorem StmtsAccounted.concat {c : Arena} {body : List StackIR.Stmt} {ss : List Stmt} {st : Stmt}
    {lo mid hi : Nat} (h : StmtsAccounted s c body ss lo mid) (hmid : mid ≤ hi)
    {nodes : Path → PartNodes} {exit : Cell → ExprId}
    (hst : StmtAccounts s c body st mid hi nodes exit) :
    StmtsAccounted s c body (ss ++ [st]) lo hi := by
  obtain ⟨cut, nodes', exit', rfl, rfl, hss⟩ := h
  refine ⟨fun k => if k ≤ ss.length then cut k else hi,
    fun k => if k < ss.length then nodes' k else nodes,
    fun k => if k < ss.length then exit' k else exit, if_pos (Nat.zero_le _), ?_,
    fun k st' hk => ?_⟩
  · simp
  · rcases getElem?_concat_eq_some.mp hk with hk | ⟨rfl, rfl⟩
    · have hlt := (List.getElem?_eq_some_iff.mp hk).1
      simp only [if_pos hlt, if_pos (Nat.le_of_lt hlt), if_pos (Nat.succ_le_of_lt hlt)]
      exact hss k st' hk
    · simp only [if_pos (Nat.le_refl _), if_neg (Nat.not_succ_le_self _),
        if_neg (Nat.lt_irrefl _)]
      exact ⟨hmid, hst⟩

theorem Emitted.accounts {m m' : Emission} {ss : List Stmt} (h : Emitted s cells m ss m')
    (hcells : ∀ name : String, cells[name]? = s.cellNamed name)
    (hexits : ∀ st, (s.exits st).Nodup) {c : Arena} {body : List StackIR.Stmt} :
    m'.procedure.arena.GrowsTo c → m'.procedure.body.toList ⊆ body →
      StmtsAccounted s c body ss m.procedure.arena.size m'.procedure.arena.size := by
  induction h with
  | nil =>
      intro _ _
      exact ⟨fun _ => m.procedure.arena.size, fun _ _ => ⟨0, 0, fun _ => 0⟩, fun _ _ => 0, rfl,
        rfl, by simp⟩
  | concat _ hstep ih =>
      intro hc hbody
      obtain ⟨hgrows, hstmts⟩ := hstep.buildsTo.growsTo
      obtain ⟨nodes, exit, hst⟩ := hstep.accounts hcells (hexits _) hc hbody
      exact (ih (hgrows.trans hc) (List.Subset.trans hstmts.subset hbody)).concat
        hgrows.size_le hst

end Statements

/-- The nodes of a lowered script are accounted for, statement by statement. -/
theorem accounts_of_lower {s : Script} {p : Procedure} (h : s.lower = .ok p) :
    StmtsAccounted s p.arena p.body.toList s.body 0 p.arena.size := by
  obtain ⟨d, m, hd, hrun, rfl⟩ := emitted_of_lower h
  have harena : d.procedure.arena.size = 0 := by
    rw [(declares_of_declared hd).procedure_eq]
    rfl
  rw [← harena]
  exact hrun.accounts (getElem?_cells_eq hd) (nodup_exits hd) (GrowsTo.refl _)
    (List.Subset.refl _)

end StackIR.Script
