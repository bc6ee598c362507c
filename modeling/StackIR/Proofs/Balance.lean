import StackIR.Proofs.ReferenceCounts

/-!
# Retains and releases balance

A lowered procedure has one retain for each counted load of its script and one release for each
that is due (`Script.Due`): one for each argument that a call only borrows, behind the call, and one
for each cell that is given up. No reference is given up twice, and none straight from its retain
(`Script.balanced_of_lower`).
-/

namespace StackIR.Script

open Arena

/-- A release that a script calls for: of an argument, by the path to the call that borrows it, or
of a cell, by the position of the statement that gives it up. -/
inductive Due where
  | argument (call : Path) (i : Nat)
  | exit (stmt : Nat) (cell : Cell)

/-- The releases that are due in a script. -/
def IsDue (s : Script) : Due → Prop
  | .argument π i => ∃ e, s.at? π = some e ∧ e.Borrows i
  | .exit k c => ∃ st, s.body[k]? = some st ∧ c ∈ s.exits st

/-- The retains and releases of a procedure are those that its script calls for. The parts of the
script's expressions go by their paths: `value` is the node of each and `call` the call itself of
each that is a call. -/
structure Balanced (s : Script) (p : Procedure) (value call : Path → ExprId)
    (release : Due → ExprId) : Prop where
  value_injOn : Set.InjOn value {π | ∃ e, s.at? π = some e}
  call_injOn : Set.InjOn call
    {π | ∃ name mask isAsync args, s.at? π = some (.call name mask isAsync args)}
  retain_bijOn : Set.BijOn value {π | ∃ e, s.at? π = some e ∧ e.IsCountedLoad s.cellNamed}
    {k | ∃ x, p.arena.get? k = some (.retain x)}
  release_bijOn : Set.BijOn release {due | s.IsDue due}
    {k | ∃ x, p.arena.get? k = some (.release x)}
  /-- Each call is handed its arguments, and those it borrows are released. -/
  call_node : ∀ {π : Path} {name : String} {mask : BitVec 32} {isAsync : Bool} {args : List Expr},
    s.at? π = some (.call name mask isAsync args) → p.arena.YieldsCall (value π) (call π) ∧
      p.arena.IsBorrowingCall (call π) name mask isAsync args.length
        (fun i => value (π ++ [i])) fun i => release (.argument π i)
  /-- No two releases are over the same node. -/
  release_unique : ∀ {k k' x : ExprId}, p.arena.get? k = some (.release x) →
    p.arena.get? k' = some (.release x) → k = k'
  /-- A cell that is given up is one of the frame's own, and its release is a statement. -/
  exit_node : ∀ {k : Nat} {c : Cell}, s.IsDue (.exit k c) →
    c.isOwned = true ∧ c.isManaged = true ∧
      StackIR.Stmt.expr (release (.exit k c)) ∈ p.body.toList ∧
        ∃ slot, p.arena.get? (release (.exit k c)) = some (.release slot) ∧
          p.arena.get? slot = some (.cell c)
  /-- A borrowed argument that is retained is released once, through its shared node. -/
  retained_released : ∀ {π : Path} {i : Nat} {e : Expr}, s.IsDue (.argument π i) →
    s.at? (π ++ [i]) = some e → e.IsCountedLoad s.cellNamed → ∀ k,
      (∃ z, p.arena.get? k = some (.release z) ∧
        p.arena.get? z = some (.shared (value (π ++ [i])))) ↔ k = release (.argument π i)
  /-- No release is over a retain itself. -/
  release_not_retain : ∀ {k x y : ExprId}, p.arena.get? k = some (.release x) →
    p.arena.get? x ≠ some (.retain y)

/-! ## The account of a script -/

/-- The nodes of the parts and of the cells given up account for the whole arena. -/
structure ScriptAccounts (s : Script) (p : Procedure) (nodes : Path → PartNodes)
    (exit : Nat → Cell → ExprId) : Prop where
  accounts : Accounts s.cellNamed p.arena s.at?
    (fun k => ∃ i c, s.IsDue (.exit i c) ∧ exit i c = k) 0 p.arena.size nodes
  exit_stmt_unique : ∀ {i j : Nat} {c d : Cell}, s.IsDue (.exit i c) → s.IsDue (.exit j d) →
    exit i c = exit j d → i = j
  exit_node : ∀ {i : Nat} {c : Cell}, s.IsDue (.exit i c) → c.isOwned = true ∧
    StackIR.Stmt.expr (exit i c) ∈ p.body.toList ∧ ∃ slot, exit i c = slot + 1 ∧
      p.arena.get? (exit i c) = some (.release slot) ∧ p.arena.get? slot = some (.cell c)

theorem exists_scriptAccounts {s : Script} {p : Procedure} (h : s.lower = .ok p) :
    ∃ nodes exit, ScriptAccounts s p nodes exit := by
  obtain ⟨cut, nodes, exit, hlo, hhi, hstmts⟩ := accounts_of_lower h
  have hget : ∀ i, (hi : i < s.body.length) → s.body[i]? = some s.body[i] := fun i hi =>
    List.getElem?_eq_getElem hi
  have hcut : ∀ i, i < s.body.length → cut i ≤ cut (i + 1) := fun i hi =>
    (hstmts i _ (hget i hi)).1
  have hlt : ∀ {i : Nat} {st : Stmt}, s.body[i]? = some st → i < s.body.length := fun hi =>
    (List.getElem?_eq_some_iff.mp hi).1
  have haccounts : Accounts s.cellNamed p.arena s.at?
      (fun k => ∃ i, i < s.body.length ∧ ∃ c, s.IsDue (.exit i c) ∧ exit i c = k) (cut 0)
      p.arena.size (underRoot ⟨0, 0, fun _ => 0⟩ nodes) := by
    refine Accounts.of_operands hcut (Nat.le_of_eq hhi) (fun i hi => ?_) (fun i π e he => ?_)
      (fun e he => ?_) fun k hlo hk => ?_
    · have hat : (fun π => s.at? (i :: π)) = (s.body[i]).at? := by
        funext π
        show (s.body[i]?).bind (fun st => st.at? π) = _
        rw [hget i hi, Option.bind_some]
      rw [hat]
      refine (hstmts i _ (hget i hi)).2.accounts.imp_other ?_
      rintro k ⟨c, hc, rfl⟩
      exact ⟨c, ⟨_, hget i hi, hc⟩, rfl⟩
    · obtain ⟨_, hi, -⟩ := Option.bind_eq_some_iff.mp he
      exact hlt hi
    · cases he
    · omega
  rw [hlo] at haccounts
  refine ⟨_, exit, haccounts.imp_other ?_, ?_, ?_⟩
  · rintro k ⟨i, -, c, hdue, rfl⟩
    exact ⟨i, c, hdue, rfl⟩
  · rintro i j c d ⟨st, hi, hc⟩ ⟨st', hj, hd⟩ heq
    have hc := (hstmts i st hi).2.givenUp c hc
    have hd := (hstmts j st' hj).2.givenUp d hd
    refine stretch_unique hcut (hlt hi) (hlt hj) ⟨hc.le, hc.lt⟩ ?_
    rw [heq]
    exact ⟨hd.le, hd.lt⟩
  · rintro i c ⟨st, hi, hc⟩
    have hst := (hstmts i st hi).2
    exact ⟨hst.isOwned c hc, (hst.givenUp c hc).stmt_mem, (hst.givenUp c hc).node⟩

namespace ScriptAccounts

variable {s : Script} {p : Procedure} {nodes : Path → PartNodes} {exit : Nat → Cell → ExprId}

def releaseNode (nodes : Path → PartNodes) (exit : Nat → Cell → ExprId) : Due → ExprId
  | .argument π i => (nodes π).release i
  | .exit k c => exit k c

/-- The release of a borrowed argument is over the node that the argument is handed on as. -/
theorem argument_node (h : ScriptAccounts s p nodes exit) {π : Path} {i : Nat}
    (hdue : s.IsDue (.argument π i)) : (∃ e, s.at? (π ++ [i]) = some e) ∧
      ∃ z, p.arena.get? ((nodes π).release i) = some (.release z) ∧
        p.arena.Borrows z (nodes (π ++ [i])).value := by
  obtain ⟨e, he, hborrows⟩ := hdue
  cases e with
  | call name mask isAsync args =>
      obtain ⟨hi, hbit⟩ := hborrows
      obtain ⟨-, -, -, ids, -, -, hargs⟩ := (h.accounts.stands he).call rfl
      obtain ⟨z, -, hz⟩ := hargs i hi
      rw [if_pos hbit] at hz
      refine ⟨⟨args[i], ?_⟩, z, hz⟩
      rw [at?_append_of_eq_some he, Expr.at?_cons, Expr.operands, List.getElem?_eq_getElem hi]
      rfl
  | _ => exact hborrows.elim

theorem borrows_of_release (h : ScriptAccounts s p nodes exit) {π : Path} {i : Nat} {x : ExprId}
    (hdue : s.IsDue (.argument π i))
    (hx : p.arena.get? ((nodes π).release i) = some (.release x)) :
    p.arena.Borrows x (nodes (π ++ [i])).value := by
  obtain ⟨-, z, hz, hborrows⟩ := h.argument_node hdue
  obtain rfl : x = z := by simpa using hx.symm.trans hz
  exact hborrows

theorem slot_of_release (h : ScriptAccounts s p nodes exit) {k : Nat} {c : Cell} {x : ExprId}
    (hdue : s.IsDue (.exit k c)) (hx : p.arena.get? (exit k c) = some (.release x)) :
    exit k c = x + 1 ∧ p.arena.get? x = some (.cell c) := by
  obtain ⟨-, -, slot, hsucc, hnode, hslot⟩ := h.exit_node hdue
  obtain rfl : x = slot := by simpa using hx.symm.trans hnode
  exact ⟨hsucc, hslot⟩

theorem exists_release (h : ScriptAccounts s p nodes exit) {due : Due} (hdue : s.IsDue due) :
    ∃ x, p.arena.get? (releaseNode nodes exit due) = some (.release x) := by
  cases due with
  | argument π i =>
      obtain ⟨-, z, hz, -⟩ := h.argument_node hdue
      exact ⟨z, hz⟩
  | exit k c =>
      obtain ⟨-, -, slot, -, hslot, -⟩ := h.exit_node hdue
      exact ⟨slot, hslot⟩

theorem exists_due (h : ScriptAccounts s p nodes exit) {k x : ExprId}
    (hk : p.arena.get? k = some (.release x)) :
    ∃ due, s.IsDue due ∧ releaseNode nodes exit due = k := by
  rcases h.accounts.release_cases (Nat.zero_le k) (lt_size_of_get? hk) hk with
    ⟨π, e, i, hπ, he, hrel⟩ | ⟨i, c, hdue, hrel⟩
  · exact ⟨.argument π i, ⟨e, hπ, he⟩, hrel⟩
  · exact ⟨.exit i c, hdue, hrel⟩

theorem argument_unique (h : ScriptAccounts s p nodes exit) {π ρ : Path} {i j : Nat} {z : ExprId}
    (hdue : s.IsDue (.argument π i)) (hdue' : s.IsDue (.argument ρ j))
    (hz : p.arena.Borrows z (nodes (π ++ [i])).value)
    (hz' : p.arena.Borrows z (nodes (ρ ++ [j])).value) : π = ρ ∧ i = j := by
  have hpath := h.accounts.value_injOn (h.argument_node hdue).1 (h.argument_node hdue').1
    (hz.unique hz')
  obtain ⟨hπ, hi⟩ := List.append_inj' hpath rfl
  exact ⟨hπ, by simpa using hi⟩

/-- No two releases that are due are over the same node. -/
theorem due_unique (h : ScriptAccounts s p nodes exit) {due due' : Due} {x : ExprId}
    (hdue : s.IsDue due) (hdue' : s.IsDue due')
    (hx : p.arena.get? (releaseNode nodes exit due) = some (.release x))
    (hx' : p.arena.get? (releaseNode nodes exit due') = some (.release x)) : due = due' := by
  cases due with
  | argument π i =>
      have hborrows := h.borrows_of_release hdue hx
      cases due' with
      | argument ρ j =>
          obtain ⟨rfl, rfl⟩ := h.argument_unique hdue hdue' hborrows
            (h.borrows_of_release hdue' hx')
          rfl
      | exit k c =>
          exact absurd hborrows (not_borrows_cell (h.slot_of_release hdue' hx').2)
  | exit k c =>
      obtain ⟨hsucc, hslot⟩ := h.slot_of_release hdue hx
      cases due' with
      | argument ρ j =>
          exact absurd (h.borrows_of_release hdue' hx') (not_borrows_cell hslot)
      | exit l d =>
          obtain ⟨hsucc', hslot'⟩ := h.slot_of_release hdue' hx'
          obtain rfl : c = d := by simpa using hslot.symm.trans hslot'
          obtain rfl := h.exit_stmt_unique hdue hdue' (hsucc.trans hsucc'.symm)
          rfl

theorem releaseNode_bijOn (h : ScriptAccounts s p nodes exit) :
    Set.BijOn (releaseNode nodes exit) {due | s.IsDue due}
      {k | ∃ x, p.arena.get? k = some (.release x)} := by
  refine ⟨fun due hdue => h.exists_release hdue, fun due hdue due' hdue' heq => ?_, ?_⟩
  · obtain ⟨x, hx⟩ := h.exists_release hdue
    have hx' := hx
    rw [heq] at hx'
    exact h.due_unique hdue hdue' hx hx'
  · rintro k ⟨x, hk⟩
    exact h.exists_due hk

theorem value_bijOn (h : ScriptAccounts s p nodes exit) :
    Set.BijOn (fun π => (nodes π).value)
      {π | ∃ e, s.at? π = some e ∧ e.IsCountedLoad s.cellNamed}
      {k | ∃ x, p.arena.get? k = some (.retain x)} := by
  refine ⟨?_, h.accounts.value_injOn.mono ?_, ?_⟩
  · rintro π ⟨e, he, hload⟩
    exact (h.accounts.stands he).retain hload
  · rintro π ⟨e, he, -⟩
    exact ⟨e, he⟩
  · rintro k ⟨x, hk⟩
    obtain ⟨π, e, he, hload, rfl⟩ :=
      h.accounts.retain_cases (Nat.zero_le k) (lt_size_of_get? hk) hk
    exact ⟨π, ⟨e, he, hload⟩, rfl⟩

theorem release_not_retain (h : ScriptAccounts s p nodes exit) {k x y : ExprId}
    (hk : p.arena.get? k = some (.release x)) : p.arena.get? x ≠ some (.retain y) := by
  intro hx
  obtain ⟨due, hdue, rfl⟩ := h.exists_due hk
  cases due with
  | argument π i =>
      rcases h.borrows_of_release hdue hk with ⟨rfl, n, hn, hliteral⟩ | hshared
      · obtain rfl := Option.some.inj (hn.symm.trans hx)
        cases hliteral
      · cases hx.symm.trans hshared
  | exit j c =>
      cases hx.symm.trans (h.slot_of_release hdue hk).2

/-- A retained argument that is borrowed is handed on through a shared node, whose release is the
only one. -/
theorem retained_released (h : ScriptAccounts s p nodes exit) {π : Path} {i : Nat} {e : Expr}
    (hdue : s.IsDue (.argument π i)) (he : s.at? (π ++ [i]) = some e)
    (hload : e.IsCountedLoad s.cellNamed) (k : ExprId) :
    (∃ z, p.arena.get? k = some (.release z) ∧
      p.arena.get? z = some (.shared (nodes (π ++ [i])).value)) ↔ k = (nodes π).release i := by
  obtain ⟨-, z, hz, hborrows⟩ := h.argument_node hdue
  constructor
  · rintro ⟨z', hk, hshared⟩
    obtain ⟨due, hdue', rfl⟩ := h.exists_due hk
    have hborrows' : p.arena.Borrows z' (nodes (π ++ [i])).value := Or.inr hshared
    cases due with
    | argument ρ j =>
        obtain ⟨rfl, rfl⟩ := h.argument_unique hdue hdue' hborrows'
          (h.borrows_of_release hdue' hk)
        rfl
    | exit j c => exact absurd hborrows' (not_borrows_cell (h.slot_of_release hdue' hk).2)
  · rintro rfl
    refine ⟨z, hz, ?_⟩
    rcases hborrows with ⟨rfl, n, hn, hliteral⟩ | hshared
    · obtain ⟨y, hy⟩ := (h.accounts.stands he).retain hload
      obtain rfl := Option.some.inj (hn.symm.trans hy)
      cases hliteral
    · exact hshared

end ScriptAccounts

/-! ## The balance -/

/-- The retains and releases of a lowered procedure are those that its script calls for, whatever
the script. -/
theorem balanced_of_lower {s : Script} {p : Procedure} (h : s.lower = .ok p) :
    ∃ value call release, Balanced s p value call release := by
  obtain ⟨nodes, exit, haccounts⟩ := exists_scriptAccounts h
  refine ⟨fun π => (nodes π).value, fun π => (nodes π).call,
    ScriptAccounts.releaseNode nodes exit, ?_⟩
  constructor
  case value_injOn => exact haccounts.accounts.value_injOn
  case call_injOn => exact haccounts.accounts.call_injOn
  case retain_bijOn => exact haccounts.value_bijOn
  case release_bijOn => exact haccounts.releaseNode_bijOn
  case call_node =>
    intro π name mask isAsync args he
    exact ((haccounts.accounts.stands he).call rfl).2.2
  case release_unique =>
    intro k k' x hk hk'
    obtain ⟨due, hdue, rfl⟩ := haccounts.exists_due hk
    obtain ⟨due', hdue', rfl⟩ := haccounts.exists_due hk'
    rw [haccounts.due_unique hdue hdue' hk hk']
  case exit_node =>
    intro k c hdue
    obtain ⟨howned, hstmt, slot, -, hnode, hslot⟩ := haccounts.exit_node hdue
    obtain ⟨st, -, hc⟩ := hdue
    exact ⟨howned, isManaged_of_mem_exits hc, hstmt, slot, hnode, hslot⟩
  case retained_released =>
    intro π i e hdue he hload k
    exact haccounts.retained_released hdue he hload k
  case release_not_retain => exact haccounts.release_not_retain

/-- A call borrows a counted local, which is then given up with the frame. -/
def borrowAndLeave : Script where
  header := {}
  cells := [⟨"s", .localVar, none, true, false, false⟩]
  body := [.expr (.call "f" 1 false [.load "s"]), .clearAll]

/-- The load is retained once and given up behind the call, the local once more at the end. -/
theorem balanced_borrowAndLeave : ∃ p value call release, borrowAndLeave.lower = .ok p ∧
    Balanced borrowAndLeave p value call release ∧
    (∃ x, p.arena.get? (value [0, 0]) = some (.retain x)) ∧
    (∃ z, p.arena.get? (release (.argument [0] 0)) = some (.release z) ∧
      p.arena.get? z = some (.shared (value [0, 0]))) ∧
    ∃ slot, p.arena.get? (release (.exit 1 (countedLocal "s"))) = some (.release slot) ∧
      p.arena.get? slot = some (.cell (countedLocal "s")) := by
  have hdeclared : borrowAndLeave.declared = .ok
      { procedure := { id := 0, locals := #[countedLocal "s"] }
        cells := (∅ : CellTable).insert "s" (countedLocal "s")
        decls := (∅ : Std.HashSet DeclId).insert 0 } :=
    declared_singleton ..
  have hload : lowerExpr ((∅ : CellTable).insert "s" (countedLocal "s")) (.load "s") {} =
      .ok ((countedLocal "s").load {}) :=
    lowerExpr_load_insert ..
  have hcall : ∃ x b, lowerExpr ((∅ : CellTable).insert "s" (countedLocal "s"))
      (.call "f" 1 false [.load "s"]) {} = .ok (x, b) := by
    rw [lowerExpr, lowerExprs, lowerExprs]
    exact ⟨_, _, bind_eq_ok.mpr ⟨[1], _, bind_eq_ok.mpr ⟨1, _, hload, rfl⟩, rfl⟩⟩
  obtain ⟨x, b, hcall⟩ := hcall
  have hbody : ∃ m, borrowAndLeave.body.foldlM
      (Emission.lower ((∅ : CellTable).insert "s" (countedLocal "s")))
      { procedure := { id := 0, locals := #[countedLocal "s"] } } = .ok m := by
    simp only [borrowAndLeave, List.foldlM_cons]
    exact ⟨_, except_bind_eq_ok.mpr ⟨_, except_bind_eq_ok.mpr ⟨_, build_eq_ok.mpr
      ⟨b, hcall, rfl⟩, rfl⟩, rfl⟩⟩
  obtain ⟨m, hm⟩ := hbody
  have h : borrowAndLeave.lower = .ok m.procedure :=
    except_bind_eq_ok.mpr ⟨_, hdeclared, except_bind_eq_ok.mpr ⟨m, hm, rfl⟩⟩
  obtain ⟨value, call, release, hbalanced⟩ := balanced_of_lower h
  have hload : borrowAndLeave.at? [0, 0] = some (.load "s") := rfl
  have hcounted : (Expr.load "s").IsCountedLoad borrowAndLeave.cellNamed :=
    ⟨countedLocal "s", rfl, rfl⟩
  have hargument : borrowAndLeave.IsDue (.argument [0] 0) := ⟨_, rfl, by decide, by decide⟩
  have hexit : borrowAndLeave.IsDue (.exit 1 (countedLocal "s")) := ⟨.clearAll, rfl, by decide⟩
  refine ⟨m.procedure, value, call, release, h, hbalanced, ?_, ?_, ?_⟩
  · exact hbalanced.retain_bijOn.mapsTo ⟨_, hload, hcounted⟩
  · exact (hbalanced.retained_released hargument hload hcounted _).mpr rfl
  · exact (hbalanced.exit_node hexit).2.2.2

end StackIR.Script
