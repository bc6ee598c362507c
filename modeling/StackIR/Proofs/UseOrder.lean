import StackIR.Effects
import StackIR.Proofs.Dumping

/-!
# Uses in the order of the walk

A code generator meets shared expressions in the order of the walk and records each as it goes.
Recording counts a visit just as linking did (`recordShared_foldl`), so what the tracker has counted
at any point are the earlier occurrences in the walk and what it counts towards are all of them. The
answers follow: a shared expression is there already if it occurred before, and it was used for the
last time if it does not occur again (`Procedure.tracksWalk_of_link`).
-/

namespace StackIR

namespace Procedure

/-- Records one step of a walk if it meets a shared expression. -/
def recordShared (p : Procedure) (u : UseTracker) : Visit → UseTracker
  | .stmt _ => u
  | .expr e => if p.arena.isShared e then u.record e else u

/-- Recording the steps of a walk counts them as linking does. -/
theorem recordShared_foldl (p : Procedure) (visits : List Visit) : ∀ u : UseTracker,
    visits.foldl p.recordShared u = { u with used := visits.foldl p.countShared u.used } := by
  induction visits with
  | nil => exact fun _ => rfl
  | cons v visits ih =>
      intro u
      rw [List.foldl_cons, List.foldl_cons, ih]
      cases v with
      | stmt i => rfl
      | expr e =>
          rw [recordShared, countShared, ← Arena.isShared]
          split <;> rfl

end Procedure

namespace LinkedProcedure

/-- The tracker when the shared expressions among some visits have been recorded, from none. -/
def trackerAfter (r : LinkedProcedure) (visits : List Visit) : UseTracker :=
  visits.foldl r.procedure.recordShared r.useTracker

variable (r : LinkedProcedure)

theorem current_trackerAfter (visits : List Visit) (e : ExprId) :
    (r.trackerAfter visits).current e =
      if r.procedure.arena.isShared e then visits.count (.expr e) else 0 := by
  rw [trackerAfter, Procedure.recordShared_foldl, UseTracker.current, Procedure.getD_countShared]
  simp [useTracker]

@[simp] theorem total_trackerAfter (visits : List Visit) (e : ExprId) :
    (r.trackerAfter visits).total e = r.totalUses e := by
  rw [trackerAfter, Procedure.recordShared_foldl]
  rfl

/-- A tracker that records the shared expressions of the visits, in order and from none, knows at
each of them where it stands. -/
structure TracksWalk (visits : List Visit) : Prop where
  /-- Right before a use, the expression has to be computed only if it did not occur before. -/
  isStateless_before : ∀ before e after, visits = before ++ .expr e :: after →
    r.procedure.arena.isShared e = true →
      ∃ b, r.procedure.arena.isStateless? (r.trackerAfter before) e = some b ∧
        (b = false ↔ .expr e ∉ before)
  /-- Right after a use, it was the last one only if the expression does not occur again. -/
  isLastUse_after : ∀ before e after, visits = before ++ .expr e :: after →
    r.procedure.arena.isShared e = true →
      ((r.trackerAfter (before ++ [.expr e])).isLastUse e = true ↔ .expr e ∉ after)
  others_unchanged : ∀ (u : UseTracker) (e x : ExprId), e ≠ x →
    (u.record e).current x = u.current x ∧ (u.record e).total x = u.total x ∧
      (u.record e).isLastUse x = u.isLastUse x ∧
      r.procedure.arena.isStateless? (u.record e) x = r.procedure.arena.isStateless? u x
  current_at_end : ∀ x, (r.trackerAfter visits).current x = (r.trackerAfter visits).total x
  unused : ∀ x, ¬(r.procedure.Reaches x ∧ r.procedure.arena.isShared x = true) →
    (r.trackerAfter visits).total x = 0 ∧ (r.trackerAfter visits).isLastUse x = false

end LinkedProcedure

/-- Recording a use of one expression changes no answer for another. -/
theorem UseTracker.others_unchanged_record (u : UseTracker) (a : Arena) {e x : ExprId}
    (h : e ≠ x) :
    (u.record e).current x = u.current x ∧ (u.record e).total x = u.total x ∧
      (u.record e).isLastUse x = u.isLastUse x ∧
      a.isStateless? (u.record e) x = a.isStateless? u x := by
  have hcurrent := u.current_record_of_ne h
  refine ⟨hcurrent, rfl, ?_, ?_⟩
  · rw [UseTracker.isLastUse, UseTracker.isLastUse, hcurrent, UseTracker.total_record]
  · simp only [Arena.isStateless?, hcurrent]

namespace Procedure

variable {p : Procedure}

/-- The walk meets only what the body reaches. -/
theorem reaches_of_mem_walk {visits : Array Visit} (h : p.walk = some visits) :
    ∀ e, .expr e ∈ visits → p.Reaches e :=
  of_mem_walk (fun he hreach hx _ => hreach.operand he hx)
    (fun _ hs _ _ hroot _ => .root hs hroot) h

/-- The uses that linking counts are the occurrences in the walk. -/
theorem totalUses_eq_count {r : LinkedProcedure} (h : p.link = .ok r) :
    r.procedure = p ∧ ∃ visits, p.walk = some visits ∧ ∀ e, r.totalUses e =
      if p.arena.isShared e then visits.toList.count (.expr e) else 0 := by
  obtain ⟨placed, targets, uses, -, -, huses, rfl⟩ := link_eq_ok.mp h
  obtain ⟨visits, hwalk, rfl⟩ := Option.map_eq_some_iff.mp huses
  refine ⟨rfl, visits, hwalk, fun e => ?_⟩
  show (visits.foldl p.countShared ∅).getD e 0 = _
  rw [← Array.foldl_toList, getD_countShared]
  simp

/-- Along the walk of a linked procedure the tracker is exact. -/
theorem tracksWalk_of_link {r : LinkedProcedure} (h : p.link = .ok r) :
    r.procedure = p ∧ ∃ visits, p.walk = some visits ∧ r.TracksWalk visits.toList := by
  obtain ⟨rfl, visits, hwalk, htotal⟩ := totalUses_eq_count h
  refine ⟨rfl, visits, hwalk, ?_, ?_, fun u _ _ => u.others_unchanged_record _, ?_, ?_⟩
  · intro before e after _ hshared
    obtain ⟨x, he⟩ := Arena.exists_of_isShared hshared
    refine ⟨_, by rw [Arena.isStateless?, he, Option.map_some], ?_⟩
    rw [r.current_trackerAfter, if_pos hshared]
    simp [Node.isLiteral, Node.isShared, List.count_eq_zero]
  · intro before e after hvisits hshared
    have hcount := htotal e
    rw [if_pos hshared, hvisits, List.count_append, List.count_cons_self] at hcount
    rw [← List.count_eq_zero, UseTracker.isLastUse, r.total_trackerAfter, r.current_trackerAfter,
      if_pos hshared, List.count_append, List.count_singleton_self, hcount]
    simp
  · intro x
    rw [r.current_trackerAfter, r.total_trackerAfter, htotal]
  · intro x hx
    have hzero : r.totalUses x = 0 := by
      rw [htotal]
      split
      case isTrue hshared =>
        refine List.count_eq_zero.mpr fun hmem => hx ⟨?_, hshared⟩
        exact reaches_of_mem_walk hwalk x (Array.mem_toList_iff.mp hmem)
      case isFalse => rfl
    rw [UseTracker.isLastUse, r.total_trackerAfter, hzero]
    exact ⟨rfl, rfl⟩

theorem walk_nestedSharing : nestedSharing.walk = some #[.stmt 0, .expr 4, .expr 3, .expr 2,
    .expr 1, .expr 0, .expr 3, .expr 1, .stmt 1, .expr 1] := by
  simp only [walk, walkStmt, nestedSharing, List.zipIdx_cons, List.zipIdx_nil, List.foldlM_cons,
    List.foldlM_nil, Stmt.expr?]
  cbv

/-- The shared call is computed for the shared field that refers to it, and used for the last time by
the second statement. -/
theorem tracksWalk_nestedSharing :
    ∃ r, nestedSharing.link = .ok r ∧
      r.TracksWalk [.stmt 0, .expr 4, .expr 3, .expr 2, .expr 1, .expr 0, .expr 3, .expr 1,
        .stmt 1, .expr 1] ∧
      nestedSharing.arena.isStateless? (r.trackerAfter [.stmt 0, .expr 4, .expr 3, .expr 2]) 1 =
        some false ∧
      (r.trackerAfter [.stmt 0, .expr 4, .expr 3, .expr 2, .expr 1, .expr 0, .expr 3, .expr 1,
        .stmt 1, .expr 1]).isLastUse 1 = true := by
  obtain ⟨uses, -, huses, -⟩ := nestedSharing_built.wellFormed.toWalkable.exists_sharedUses
  have hlink := link_eq_ok.mpr ⟨#[], #[none, none], uses, rfl, rfl, huses, rfl⟩
  obtain ⟨-, visits, hwalk, htracks⟩ := tracksWalk_of_link hlink
  obtain rfl := Option.some.inj (hwalk.symm.trans walk_nestedSharing)
  refine ⟨_, hlink, htracks, ?_, ?_⟩
  · obtain ⟨b, hb, hfirst⟩ := htracks.isStateless_before [.stmt 0, .expr 4, .expr 3, .expr 2] 1
      _ rfl rfl
    obtain rfl := hfirst.mpr (by decide)
    exact hb
  · exact (htracks.isLastUse_after [.stmt 0, .expr 4, .expr 3, .expr 2, .expr 1, .expr 0, .expr 3,
      .expr 1, .stmt 1] 1 [] rfl rfl).mpr (by decide)

end Procedure

end StackIR
