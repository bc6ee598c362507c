import StackIR.Proofs.ExactLinking
import StackIR.Proofs.Outlining

/-!
# Jumps by handle and jumps by name

A jump that gives the handle of a label may give the label's name instead (`Procedure.nameJumps`).
Nothing that linking finds depends on which of the two a jump does, be it the linkage or the error,
and neither does the dump of the linked procedure (`interchangeable_of_built`). The body is
replaced statement by statement, so each pass of linking is shown to do the same with each
statement.
-/

namespace StackIR.Procedure

variable {p : Procedure}

/-- A jump to a label that was made, by the label's name. Any other statement stays as it is. -/
def nameJump (p : Procedure) : Stmt → Stmt
  | .jump (.label l) mode value =>
    .jump (if l < p.labels.size then .name (p.labelName l) else .label l) mode value
  | s => s

/-- The procedure with the chosen ones of its jumps going by name. -/
def nameJumps (p : Procedure) (chosen : Nat → Bool) : Procedure :=
  { p with body := p.body.mapIdx fun i s => if chosen i then p.nameJump s else s }

/-! ## Statement by statement -/

section Statements

variable {chosen : Nat → Bool}

theorem getElem?_nameJumps (i : Nat) :
    (p.nameJumps chosen).body.toList[i]? =
      p.body.toList[i]?.map fun s => if chosen i then p.nameJump s else s := by
  rw [Array.getElem?_toList, Array.getElem?_toList]
  exact Array.getElem?_mapIdx

theorem zipIdx_nameJumps :
    (p.nameJumps chosen).body.toList.zipIdx = p.body.toList.zipIdx.map fun s =>
      (if chosen s.2 then p.nameJump s.1 else s.1, s.2) := by
  refine List.ext_getElem? fun i => ?_
  rw [List.getElem?_zipIdx, List.getElem?_map, List.getElem?_zipIdx, getElem?_nameJumps]
  simp [Function.comp_def]

theorem expr?_nameJump (s : Stmt) : (p.nameJump s).expr? = s.expr? := by
  unfold nameJump
  split <;> rfl

theorem expr?_ite_nameJump (i : Nat) (s : Stmt) :
    (if chosen i then p.nameJump s else s).expr? = s.expr? := by
  split
  · exact expr?_nameJump s
  · rfl

theorem placeLabel_nameJump (placed : Array (Option Nat)) (i : Nat) (s : Stmt) :
    p.placeLabel placed (p.nameJump s, i) = p.placeLabel placed (s, i) := by
  unfold nameJump
  split <;> rfl

/-- Looking for a label by its name finds it, or is told of in the error, as by its handle. -/
theorem findStmtTarget_nameJump {placed : Array (Option Nat)}
    (h : Places p.labels.size p.body.toList placed) (hnamed : p.LabelsNamed) (i : Nat) (s : Stmt) :
    p.findStmtTarget placed (p.placedByName placed) (p.nameJump s, i) =
      p.findStmtTarget placed (p.placedByName placed) (s, i) := by
  unfold nameJump
  split
  next l mode value =>
      split
      next hl =>
          have hname := getElem?_labels hl
          obtain ⟨at?, hat⟩ : ∃ at?, placed[l]? = some at? :=
            ⟨_, Array.getElem?_eq_getElem (h.size_eq.symm ▸ hl)⟩
          simp only [findStmtTarget, findTarget, hat]
          cases at? with
          | none =>
              have hnone : (p.placedByName placed)[p.labelName l]? = none := by
                refine Option.eq_none_iff_forall_ne_some.mpr fun k hk => ?_
                obtain ⟨hk, j, hj⟩ := (h.getElem?_placedByName hnamed).mp hk
                obtain rfl := hnamed.injective hk hname
                rw [← h.eq_some_iff, hat] at hj
                cases hj
              rw [hnone]
          | some j =>
              have hsome := (h.getElem?_placedByName hnamed).mpr
                ⟨hname, j, (h.eq_some_iff l j).mp hat⟩
              rw [hsome]
      next => rfl
  next => rfl

end Statements

/-! ## Pass by pass -/

section Passes

variable (p) (chosen : Nat → Bool)

theorem placements_nameJumps : (p.nameJumps chosen).placements = p.placements := by
  unfold placements
  rw [zipIdx_nameJumps, List.foldlM_map]
  show p.body.toList.zipIdx.foldlM (fun placed s => p.placeLabel placed
    (if chosen s.2 then p.nameJump s.1 else s.1, s.2)) _ = _
  congr 1
  funext placed s
  split
  · exact placeLabel_nameJump placed s.2 s.1
  · rfl

variable {p} in
theorem findTargets_nameJumps {placed : Array (Option Nat)}
    (h : Places p.labels.size p.body.toList placed) (hnamed : p.LabelsNamed) :
    (p.nameJumps chosen).findTargets placed = p.findTargets placed := by
  unfold findTargets
  dsimp only
  rw [zipIdx_nameJumps, List.mapM_map]
  refine congrArg (fun f => List.toArray <$> p.body.toList.zipIdx.mapM f) (funext fun s => ?_)
  show p.findStmtTarget placed (p.placedByName placed)
    (if chosen s.2 then p.nameJump s.1 else s.1, s.2) = _
  split
  · exact findStmtTarget_nameJump h hnamed s.2 s.1
  · rfl

theorem outlines_nameJumps : (p.nameJumps chosen).outlines = p.outlines := by
  have hstmts : (p.nameJumps chosen).body.toList.map Stmt.expr? =
      p.body.toList.map Stmt.expr? := by
    refine List.ext_getElem? fun i => ?_
    rw [List.getElem?_map, List.getElem?_map, getElem?_nameJumps]
    cases p.body.toList[i]? with
    | none => rfl
    | some s => exact congrArg some (expr?_ite_nameJump i s)
  have houtlines : ∀ q : Procedure, q.outlines =
      ((q.body.toList.map Stmt.expr?).mapM (Option.mapM q.arena.outline)).run' ∅ := by
    intro q
    rw [List.mapM_map]
    rfl
  rw [houtlines, houtlines, hstmts]
  rfl

theorem walk_nameJumps : (p.nameJumps chosen).walk = p.walk := by
  rw [walk_eq_outlines, walk_eq_outlines, outlines_nameJumps]

end Passes

theorem linkage_nameJumps (hnamed : p.LabelsNamed) (chosen : Nat → Bool) :
    (p.nameJumps chosen).linkage = p.linkage := by
  unfold linkage
  rw [placements_nameJumps]
  cases hplaced : p.placements with
  | error error => rfl
  | ok placed =>
      have hplaces := places_of_placements hplaced
      simp only [bind, Except.bind, findTargets_nameJumps chosen hplaces hnamed, sharedUses?,
        walk_nameJumps]
      rfl

/-! ## Dumps -/

/-- The dump of a linked procedure shows a jump by the label it was linked to. -/
theorem stmtText_nameJump {link : Linkage} {i : Nat} {s : Stmt}
    (hs : ∀ l mode value, s = .jump (.label l) mode value → link.targets.getD i none = some l)
    (outline? : Option Outline) :
    p.stmtText (some link) i (p.nameJump s) outline? = p.stmtText (some link) i s outline? := by
  unfold nameJump
  split
  next l mode value =>
      have hl := hs l mode value rfl
      simp only [stmtText, Option.bind_some, hl, targetText]
  next => rfl

theorem dumpWith_nameJumps (hnamed : p.LabelsNamed) (chosen : Nat → Bool) {r : LinkedProcedure}
    (hr : p.link = .ok r) :
    (p.nameJumps chosen).dumpWith (some r.linkage) = p.dumpWith (some r.linkage) := by
  have hexact := linksExactly_of_link hnamed hr
  have hlines : ∀ outlines, (p.nameJumps chosen).dumpLines (some r.linkage) outlines =
      p.dumpLines (some r.linkage) outlines := by
    intro outlines
    unfold dumpLines
    refine congrArg (List.append _) (List.ext_getElem? fun i => ?_)
    simp only [List.getElem?_map, List.getElem?_zipIdx, List.zip, List.getElem?_zipWith,
      getElem?_nameJumps]
    cases hs : p.body.toList[i]? with
    | none => rfl
    | some s =>
        cases outlines[i]? with
        | none => rfl
        | some outline? =>
            have htext : p.stmtText (some r.linkage) i (if chosen i then p.nameJump s else s)
                outline? = p.stmtText (some r.linkage) i s outline? := by
              split
              · refine stmtText_nameJump (fun l mode value hjump => ?_) outline?
                rw [Array.getElem?_toList, hjump] at hs
                exact (hexact.target?_eq_some_iff i l).mpr ⟨_, mode, value, hs, rfl⟩
              · rfl
            simp only [Option.map_some, Nat.zero_add]
            exact congrArg (fun text => some (columnText i ++ "  " ++ text)) htext
  unfold dumpWith
  rw [outlines_nameJumps]
  simp only [hlines]

/-! ## Linking and dumping -/

theorem link_eq (p : Procedure) : p.link = p.linkage.map fun linkage => ⟨p, linkage⟩ := by
  unfold link
  cases p.linkage <;> rfl

theorem linkage_of_link {r : LinkedProcedure} (hr : p.link = .ok r) :
    p.linkage = .ok r.linkage := by
  rw [link_eq] at hr
  cases h : p.linkage with
  | error error => simp [h, Except.map] at hr
  | ok linkage =>
      simp only [h, Except.map, Except.ok.injEq] at hr
      rw [← hr]

/-- No two labels of a procedure that is built have the same name, and it makes no difference which
of its jumps to labels that were made give the name and which the handle: linking finds the same or
fails with the same error, and the linked procedures have the same dump. -/
theorem interchangeable_of_built (hp : p.Built) :
    (∀ l l', l < p.labels.size → l' < p.labels.size → p.labelName l = p.labelName l' → l = l') ∧
      ∀ chosen : Nat → Bool,
        (∀ r, p.link = .ok r → ∃ r', (p.nameJumps chosen).link = .ok r' ∧
          r'.procedure = p.nameJumps chosen ∧ r'.linkage = r.linkage ∧
            ∃ text, r.dump = some text ∧ r'.dump = some text) ∧
        ∀ error, p.link = .error error → (p.nameJumps chosen).link = .error error := by
  have hnamed := hp.labelsNamed
  refine ⟨fun l l' hl hl' h => hp.labelName_injective hl hl' h, fun chosen => ⟨?_, ?_⟩⟩
  · intro r hr
    obtain ⟨text, htext⟩ := hp.wellFormed.toWalkable.exists_dumpWith (some r.linkage)
    refine ⟨⟨p.nameJumps chosen, r.linkage⟩, ?_, rfl, rfl, text, ?_, ?_⟩
    · rw [link_eq, linkage_nameJumps hnamed, linkage_of_link hr]
      rfl
    · rw [LinkedProcedure.dump, (linksExactly_of_link hnamed hr).procedure_eq]
      exact htext
    · exact (dumpWith_nameJumps hnamed chosen hr).trans htext
  · intro error herror
    rw [link_eq] at herror ⊢
    rw [linkage_nameJumps hnamed]
    cases h : p.linkage with
    | error error' =>
        rw [h] at herror
        obtain rfl := Except.error.inj herror
        rfl
    | ok linkage =>
        rw [h] at herror
        cases herror

/-- The jump back may give the name of its label, and so may both jumps. -/
theorem interchangeable_forwardAndBack :
    (forwardAndBack.nameJumps fun _ => true).body[2]? =
        some (.jump (.name ".top.0") .always none) ∧
      ∃ r r', forwardAndBack.link = .ok r ∧
        (forwardAndBack.nameJumps fun _ => true).link = .ok r' ∧ r'.linkage = r.linkage ∧
          ∃ text, r.dump = some text ∧ r'.dump = some text := by
  obtain ⟨r, hr⟩ := forwardAndBack_linkable.exists_link
    forwardAndBack_built.wellFormed.toWalkable forwardAndBack_built.labelsNamed
  obtain ⟨hok, -⟩ := (interchangeable_of_built forwardAndBack_built).2 fun _ => true
  obtain ⟨r', hr', -, hlinkage, hdump⟩ := hok r hr
  exact ⟨rfl, r, r', hr, hr', hlinkage, hdump⟩

end StackIR.Procedure
