import StackIR.Proofs.Faults

/-!
# Lowering goes from statement to statement

Lowering the first statements of a script (`Script.cut`) makes what lowering the whole script has
made when it comes to the next one, so a procedure that is lowered from them is continued by that of
the whole script (`Procedure.ContinuesTo`): nodes, statements and labels are only appended, and the
header and the cells stay. A body that cannot be lowered has one statement where lowering fails, and
whatever stands behind it does not change the error (`Script.lower_cut`).
-/

namespace StackIR

namespace Procedure

/-- The second procedure is the first with nodes, statements and labels appended. -/
structure ContinuesTo (p q : Procedure) : Prop where
  /-- The header and the cells stay as they are. -/
  frame_eq : q = { p with arena := q.arena, labels := q.labels, body := q.body }
  nodes : p.arena.nodes.toList <+: q.arena.nodes.toList
  labels : p.labels.toList <+: q.labels.toList
  body : p.body.toList <+: q.body.toList

variable {p q r : Procedure}

theorem ContinuesTo.refl (p : Procedure) : p.ContinuesTo p where
  frame_eq := rfl
  nodes := List.prefix_refl _
  labels := List.prefix_refl _
  body := List.prefix_refl _

theorem ContinuesTo.trans (hpq : p.ContinuesTo q) (hqr : q.ContinuesTo r) : p.ContinuesTo r where
  frame_eq := by
    rw [hqr.frame_eq, hpq.frame_eq]
  nodes := hpq.nodes.trans hqr.nodes
  labels := hpq.labels.trans hqr.labels
  body := hpq.body.trans hqr.body

theorem continuesTo_emit (p : Procedure) (s : Stmt) : p.ContinuesTo (p.emit s) where
  frame_eq := rfl
  nodes := List.prefix_refl _
  labels := List.prefix_refl _
  body := by simp [emit]

theorem continuesTo_newLabel (p : Procedure) (base : String) :
    p.ContinuesTo (p.newLabel base).2 where
  frame_eq := rfl
  nodes := List.prefix_refl _
  labels := by simp [newLabel]
  body := List.prefix_refl _

theorem continuesTo_of_growsTo {arena : Arena} (h : p.arena.GrowsTo arena) :
    p.ContinuesTo { p with arena } where
  frame_eq := rfl
  nodes := h
  labels := List.prefix_refl _
  body := List.prefix_refl _

theorem continuesTo_release (p : Procedure) (c : Cell) : p.ContinuesTo (p.release c) :=
  (continuesTo_of_growsTo ((Arena.growsTo_add _ _).trans (Arena.growsTo_add _ _))).trans
    (continuesTo_emit _ _)

theorem continuesTo_foldl_release (cs : List Cell) : ∀ (p : Procedure),
    p.ContinuesTo (cs.foldl release p) := by
  induction cs with
  | nil => exact fun p => .refl p
  | cons c cs ih => exact fun p => (continuesTo_release p c).trans (ih (p.release c))

end Procedure

namespace Script

/-! ## Runs -/

theorem continuesTo_label (m : Emission) (name : String) :
    m.procedure.ContinuesTo (m.label name).2.procedure := by
  unfold Emission.label
  cases m.labels[name]? with
  | none => exact Procedure.continuesTo_newLabel _ _
  | some l => exact .refl _

/-- What one statement does continues the procedure. -/
theorem Emits.continuesTo {s : Script} {cells : CellTable} {m m' : Emission} {st : Stmt}
    (h : Emits s cells m st m') : m.procedure.ContinuesTo m'.procedure := by
  cases h with
  | evaluate h =>
      exact (Procedure.continuesTo_of_growsTo h.buildsTo.1.growsTo).trans
        (Procedure.continuesTo_emit _ _)
  | label name => exact (continuesTo_label m name).trans (Procedure.continuesTo_emit _ _)
  | jump target mode h =>
      have hgrows := h.buildsTo.1.growsTo
      have harena : (m.label target).2.procedure.arena = m.procedure.arena := by
        rw [m.label_procedure target]
      rw [← harena] at hgrows
      exact (continuesTo_label m target).trans
        ((Procedure.continuesTo_of_growsTo hgrows).trans (Procedure.continuesTo_emit _ _))
  | stackEmpty => exact Procedure.continuesTo_emit _ _
  | exit _ _ => exact Procedure.continuesTo_foldl_release _ _

theorem Emitted.continuesTo {s : Script} {cells : CellTable} {m m' : Emission} {ss : List Stmt}
    (h : Emitted s cells m ss m') : m.procedure.ContinuesTo m'.procedure := by
  induction h with
  | nil => exact .refl _
  | concat _ hstep ih => exact ih.trans hstep.continuesTo

/-! ## Runs that stop -/

section Runs

variable {ε α β : Type} {f : β → α → Except ε β} {xs : List α} {b : β}

/-- A run that succeeds comes past every position. -/
theorem exists_foldlM_take {c : β} (h : xs.foldlM f b = .ok c) (k : Nat) :
    ∃ m, (xs.take k).foldlM f b = .ok m ∧ (xs.drop k).foldlM f m = .ok c := by
  rw [← List.take_append_drop k xs, List.foldlM_append] at h
  exact except_bind_eq_ok.mp h

/-- An error stays the same however far the run would go on. -/
theorem foldlM_take_eq_error {error : ε} {j k : Nat} (hjk : j ≤ k)
    (h : (xs.take j).foldlM f b = .error error) : (xs.take k).foldlM f b = .error error := by
  obtain ⟨i, rfl⟩ := Nat.exists_eq_add_of_le hjk
  rw [List.take_add, List.foldlM_append, h]
  rfl

/-- A run that fails does so at some element, and comes to it. -/
theorem exists_foldlM_take_eq_error {error : ε} (h : xs.foldlM f b = .error error) :
    ∃ k < xs.length, (∃ m, (xs.take k).foldlM f b = .ok m) ∧
      (xs.take (k + 1)).foldlM f b = .error error := by
  induction xs generalizing b with
  | nil => cases h
  | cons x xs ih =>
      rw [List.foldlM_cons] at h
      cases hx : f b x with
      | error error' =>
          rw [hx] at h
          refine ⟨0, Nat.zero_lt_succ _, ⟨b, rfl⟩, ?_⟩
          rw [List.take_succ_cons, List.foldlM_cons, hx]
          exact h
      | ok c =>
          rw [hx] at h
          obtain ⟨k, hk, ⟨m, hm⟩, hfails⟩ := ih h
          refine ⟨k + 1, Nat.succ_lt_succ hk, ⟨m, ?_⟩, ?_⟩
          · rw [List.take_succ_cons, List.foldlM_cons, hx]
            exact hm
          · rw [List.take_succ_cons, List.foldlM_cons, hx]
            exact hfails

end Runs

/-! ## Scripts that are cut -/

/-- The script with its body cut to the first statements. -/
def cut (s : Script) (k : Nat) : Script :=
  { s with body := s.body.take k }

/-- Lowering comes to the statement at a position and fails there. -/
def FailsAt (s : Script) (k : Nat) : Prop :=
  (∃ q, (s.cut k).lower = .ok q) ∧ ∃ error, (s.cut (k + 1)).lower = .error error

variable {s : Script} {d : Declared}

theorem lower_eq_of_declared (h : s.declared = .ok d) :
    s.lower = Emission.procedure <$>
      s.body.foldlM (Emission.lower d.cells) { procedure := d.procedure } := by
  rw [lower, h]
  show (s.body.foldlM (Emission.lower d.cells) { procedure := d.procedure } >>=
    fun m => pure m.procedure) = _
  rw [bind_pure_comp]

theorem lower_eq_error_iff (h : s.declared = .ok d) {error : LowerError} :
    s.lower = .error error ↔
      s.body.foldlM (Emission.lower d.cells) { procedure := d.procedure } = .error error := by
  rw [lower_eq_of_declared h]
  cases s.body.foldlM (Emission.lower d.cells) { procedure := d.procedure } <;>
    simp [Functor.map, Except.map]

theorem lower_eq_ok_iff (h : s.declared = .ok d) {p : Procedure} :
    s.lower = .ok p ↔ ∃ m, s.body.foldlM (Emission.lower d.cells) { procedure := d.procedure } =
      .ok m ∧ m.procedure = p := by
  rw [lower_eq_of_declared h]
  cases s.body.foldlM (Emission.lower d.cells) { procedure := d.procedure } <;>
    simp [Functor.map, Except.map]

/-- The procedure of a script continues that of its first statements. -/
theorem exists_lower_cut {p : Procedure} (h : s.lower = .ok p) (k : Nat) :
    ∃ q, (s.cut k).lower = .ok q ∧ q.ContinuesTo p := by
  obtain ⟨d, hd, -⟩ := except_bind_eq_ok.mp h
  obtain ⟨m, hm, rfl⟩ := (lower_eq_ok_iff hd).mp h
  obtain ⟨m', hfirst, hrest⟩ := exists_foldlM_take hm k
  have hcells := getElem?_cells_eq hd
  have hframes := (emitted_of_foldlM hcells (frames_declared hd) hfirst).2
  exact ⟨m'.procedure, (lower_eq_ok_iff (s := s.cut k) hd).mpr ⟨m', hfirst, rfl⟩,
    (emitted_of_foldlM hcells hframes hrest).1.continuesTo⟩

/-- Once lowering the body has failed, it fails with the same error on every longer cut. -/
theorem lower_cut_eq_error (hd : s.declared = .ok d) {j k : Nat} (hjk : j ≤ k) {error : LowerError}
    (h : (s.cut j).lower = .error error) : (s.cut k).lower = .error error :=
  (lower_eq_error_iff (s := s.cut k) hd).mpr
    (foldlM_take_eq_error hjk ((lower_eq_error_iff (s := s.cut j) hd).mp h))

/-- No statement behind one where lowering fails is another such. -/
theorem FailsAt.le (hd : s.declared = .ok d) {j k : Nat} (hj : s.FailsAt j) (hk : s.FailsAt k) :
    k ≤ j := by
  obtain ⟨error, herror⟩ := hj.2
  obtain ⟨q, hq⟩ := hk.1
  refine Nat.le_of_not_lt fun hlt => ?_
  rw [lower_cut_eq_error hd hlt herror] at hq
  cases hq

/-- Lowering goes from statement to statement. If it succeeds, it succeeds on the first statements,
and goes on from their procedure. If it fails in the body, it fails at one statement, with the error
it has from then on. If it fails in the cells, the body does not matter. -/
theorem lower_cut (s : Script) :
    (∀ p, s.lower = .ok p → ∀ k, ∃ q, (s.cut k).lower = .ok q ∧ q.ContinuesTo p) ∧
    (∀ d error, s.declared = .ok d → s.lower = .error error →
      ∃ k < s.body.length, s.FailsAt k ∧ (∀ j, s.FailsAt j → j = k) ∧
        ∀ j, k < j → (s.cut j).lower = .error error) ∧
    ∀ error, s.declared = .error error → ∀ k, (s.cut k).lower = .error error := by
  refine ⟨fun p hp k => exists_lower_cut hp k, fun d error hd herror => ?_,
    fun error herror k => ?_⟩
  · obtain ⟨k, hk, ⟨m, hm⟩, hfails⟩ :=
      exists_foldlM_take_eq_error ((lower_eq_error_iff hd).mp herror)
    have hok : (s.cut k).lower = .ok m.procedure :=
      (lower_eq_ok_iff (s := s.cut k) hd).mpr ⟨m, hm, rfl⟩
    have hnext : (s.cut (k + 1)).lower = .error error :=
      (lower_eq_error_iff (s := s.cut (k + 1)) hd).mpr hfails
    have hat : s.FailsAt k := ⟨⟨_, hok⟩, error, hnext⟩
    exact ⟨k, hk, hat, fun j hj => Nat.le_antisymm (hat.le hd hj) (hj.le hd hat),
      fun j hj => lower_cut_eq_error hd hj hnext⟩
  · have hcut : (s.cut k).declared = .error error := herror
    rw [lower, hcut]
    rfl

/-- A jump to a label that is made before a cell is read that nobody declared. -/
def strayLoad : Script where
  header := {}
  cells := [⟨"x", .localVar, none, true, true, true⟩]
  body := [.jump "out" .always (some (.load "x")), .clearAll, .label "out", .expr (.load "y"),
    .label "end"]

theorem lower_cut_strayLoad : ∃ p q, (strayLoad.cut 3).lower = .ok p ∧
    ((strayLoad.cut 3).cut 1).lower = .ok q ∧ q.ContinuesTo p ∧ strayLoad.FailsAt 3 ∧
      ∀ j, 3 < j → (strayLoad.cut j).lower = .error (.unknownCell "y") := by
  have hsize : strayLoad.cells.length < UInt32.size := by decide
  have hstops : ∀ k, StopsAt (strayLoad.cut k).faults (strayLoad.cut k).lower := fun k =>
    stopsAt_faults (s := strayLoad.cut k) hsize
  obtain ⟨p, hp⟩ : ∃ p, (strayLoad.cut 3).lower = .ok p := (hstops 3).exists_ok_iff.mpr (by decide)
  have hnext : (strayLoad.cut 4).lower = .error (.unknownCell "y") :=
    ((hstops 4).eq_error_iff _).mpr (by decide)
  have hwhole : strayLoad.lower = .error (.unknownCell "y") :=
    ((hstops 5).eq_error_iff _).mpr (by decide)
  have hfails : strayLoad.FailsAt 3 := ⟨⟨p, hp⟩, _, hnext⟩
  obtain ⟨q, hq, hcontinues⟩ := (lower_cut (strayLoad.cut 3)).1 p hp 1
  obtain ⟨d, hd, -⟩ := except_bind_eq_ok.mp hp
  obtain ⟨k, -, -, hunique, herror⟩ := (lower_cut strayLoad).2.1 d _ hd hwhole
  obtain rfl := hunique 3 hfails
  exact ⟨p, q, hp, hq, hcontinues, hfails, herror⟩

end Script

end StackIR
