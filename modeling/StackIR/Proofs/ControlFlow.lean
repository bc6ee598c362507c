import StackIR.Proofs.Increments
import StackIR.Proofs.Layout
import StackIR.Proofs.Rearranging

/-!
# The control flow of a lowered script

A script is linkable if it places no label twice and jumps only to labels it places (`Linkable`).
Its procedure links in just this case, and its jumps then go where the script says (`Follows`,
`link_of_lower`), since the statements that place labels and jump stand where the layout says.
-/

namespace StackIR.Script

/-- The name of a label that a statement mentions. -/
def Stmt.label? : Stmt → Option String
  | .label name => some name
  | .jump target _ _ => some target
  | _ => none

/-- The script mentions a label. -/
def Mentions (s : Script) (name : String) : Prop :=
  ∃ st ∈ s.body, st.label? = some name

/-- No label is placed by two statements of the script, and every jump goes to a label that some
statement places, before or behind it. -/
structure Linkable (s : Script) : Prop where
  unique : ∀ (i j : Nat) (name : String), s.body[i]? = some (.label name) →
    s.body[j]? = some (.label name) → i = j
  placed : ∀ (i : Nat) (target : String) (mode : JumpMode) (value : Option Expr),
    s.body[i]? = some (.jump target mode value) → ∃ j : Nat, s.body[j]? = some (.label target)

/-- The linked procedure jumps as the script does, if its labels go by the given handles. -/
structure Follows (s : Script) (r : LinkedProcedure) (handle : String → LabelId) : Prop where
  /-- Labels of different names have different handles. -/
  injective : ∀ name name', s.Mentions name → s.Mentions name' →
    handle name = handle name' → name = name'
  labelName_eq : ∀ name, s.Mentions name →
    r.procedure.labelName (handle name) = "." ++ name ++ "." ++ (handle name).repr
  placement?_eq : ∀ (j : Nat) (name : String), s.body[j]? = some (.label name) →
    r.placement? (handle name) = some (s.offset j)
  jump_eq : ∀ (i : Nat) (target : String) (mode : JumpMode) (value : Option Expr),
    s.body[i]? = some (.jump target mode value) →
      r.target? (s.offset i) = some (handle target) ∧
        ∃ x, r.procedure.body[s.offset i]? = some (.jump (.label (handle target)) mode x)
  incoming_eq : ∀ name, s.Mentions name →
    r.incoming (handle name) = s.body.countP (Stmt.jumpsTo name)
  /-- No other statement of the procedure jumps anywhere. -/
  target?_eq_none : ∀ k, (∀ (i : Nat) (target : String) (mode : JumpMode) (value : Option Expr),
    s.body[i]? = some (.jump target mode value) → k ≠ s.offset i) → r.target? k = none

namespace LaidOut

variable {s : Script} {m : Emission}

theorem exists_label (h : LaidOut s m) {name : String} (hname : s.Mentions name) :
    ∃ l, m.labels[name]? = some l := by
  obtain ⟨st, hst, hname⟩ := hname
  obtain ⟨i, hi⟩ := List.mem_iff_getElem?.mp hst
  cases st with
  | label name' =>
      obtain rfl := Option.some.inj hname
      exact h.label_at i name' hi
  | jump target mode value =>
      obtain rfl := Option.some.inj hname
      obtain ⟨l, -, hl, -⟩ := h.jump_at i target mode value hi
      exact ⟨l, hl⟩
  | _ => cases hname

theorem lt (h : LaidOut s m) {k : Nat} {l : LabelId}
    (hk : m.procedure.body.toList[k]? = some (.label l)) : l < m.procedure.labels.size := by
  obtain ⟨i, name, -, hname, -⟩ := (h.label_iff k l).mp hk
  exact h.named.lt hname

theorem exists_placements (h : LaidOut s m) (hs : s.Linkable) :
    ∃ placed, m.procedure.placements = .ok placed ∧
      Procedure.Places m.procedure.labels.size m.procedure.body.toList placed := by
  refine Procedure.placements_eq_ok (fun k l hk => h.lt hk) fun k k' l hk hk' => ?_
  obtain ⟨i, name, hi, hname, rfl⟩ := (h.label_iff k l).mp hk
  obtain ⟨j, name', hj, hname', rfl⟩ := (h.label_iff k' l).mp hk'
  obtain rfl := h.named.injective hname hname'
  rw [hs.unique i j name hi hj]

/-- The label of a name is placed exactly where a statement of the script places the name. -/
theorem exists_placed_iff (h : LaidOut s m) {name : String} {l : LabelId}
    (hl : m.labels[name]? = some l) :
    (∃ k : Nat, m.procedure.body.toList[k]? = some (StackIR.Stmt.label l)) ↔
      ∃ j : Nat, s.body[j]? = some (.label name) := by
  constructor
  · rintro ⟨k, hk⟩
    obtain ⟨j, name', hj, hname', -⟩ := (h.label_iff k l).mp hk
    obtain rfl := h.named.injective hl hname'
    exact ⟨j, hj⟩
  · rintro ⟨j, hj⟩
    exact ⟨s.offset j, (h.label_iff _ l).mpr ⟨j, name, hj, hl, rfl⟩⟩

theorem findStmtTarget_eq_ok (h : LaidOut s m) {placed : Array (Option Nat)}
    (hplaces : Procedure.Places m.procedure.labels.size m.procedure.body.toList placed)
    {byName : Std.HashMap String LabelId} {k : Nat} {name : String} {l : LabelId}
    {mode : JumpMode} {x : Option ExprId} {target? : Option LabelId}
    (hl : m.labels[name]? = some l) :
    m.procedure.findStmtTarget placed byName (.jump (.label l) mode x, k) = .ok target? ↔
      target? = some l ∧ ∃ j : Nat, s.body[j]? = some (.label name) := by
  rw [← h.exists_placed_iff hl]
  exact Procedure.findStmtTarget_label_eq_ok hplaces

/-- Where the script is linkable, every jump finds its label. -/
theorem exists_link (h : LaidOut s m) (hp : m.procedure.Walkable) (hs : s.Linkable) :
    ∃ r, m.procedure.link = .ok r := by
  obtain ⟨placed, hplaced, hplaces⟩ := h.exists_placements hs
  have hfind : ∀ (k : Nat) (st : StackIR.Stmt), m.procedure.body.toList[k]? = some st →
      ∃ target?, m.procedure.findStmtTarget placed (m.procedure.placedByName placed) (st, k) =
        .ok target? := by
    intro k st hk
    cases st with
    | jump t mode x =>
        obtain ⟨i, target, value, l, hi, rfl, hl, -⟩ := h.jump_of k t mode x hk
        exact ⟨some l, (h.findStmtTarget_eq_ok hplaces hl).mpr
          ⟨rfl, hs.placed i target mode value hi⟩⟩
    | _ => exact ⟨none, rfl⟩
  obtain ⟨targets, htargets⟩ := Procedure.exists_findTargets hfind
  obtain ⟨uses, -, huses, -⟩ := hp.exists_sharedUses
  exact ⟨_, Procedure.link_eq_ok.mpr ⟨placed, targets, uses, hplaced, htargets, huses, rfl⟩⟩

theorem linkable_of_link (h : LaidOut s m) {r : LinkedProcedure} (hr : m.procedure.link = .ok r) :
    s.Linkable := by
  obtain ⟨placed, targets, uses, hplaced, htargets, -, -⟩ := Procedure.link_eq_ok.mp hr
  have hplaces := Procedure.places_of_placements hplaced
  refine ⟨fun i j name hi hj => ?_, fun i target mode value hi => ?_⟩
  · obtain ⟨l, hl⟩ := h.label_at i name hi
    have heq := hplaces.unique ((h.label_iff _ l).mpr ⟨i, name, hi, hl, rfl⟩)
      ((h.label_iff _ l).mpr ⟨j, name, hj, hl, rfl⟩)
    -- A label statement comes to one statement, so two of them stand apart.
    rcases Nat.lt_trichotomy i j with hlt | hij | hgt
    · exact absurd heq (Nat.ne_of_lt (offset_lt hlt hi Nat.one_pos))
    · exact hij
    · exact absurd heq.symm (Nat.ne_of_lt (offset_lt hgt hj Nat.one_pos))
  · obtain ⟨l, x, hl, hbody⟩ := h.jump_at i target mode value hi
    obtain ⟨target?, -, hok⟩ := Procedure.getElem?_of_findTargets htargets hbody
    exact ((h.findStmtTarget_eq_ok hplaces hl).mp hok).2

/-- A lowered procedure that does not link has a label that is placed nowhere or twice. -/
theorem error_cases (h : LaidOut s m) (hp : m.procedure.Walkable) {error : LinkError}
    (herror : m.procedure.link = .error error) :
    (∃ name i, error = .undefinedLabel name i) ∨ ∃ name i, error = .duplicateLabel name i := by
  rcases Procedure.link_eq_error herror with hplaced | ⟨placed, hplaced, htargets⟩ | ⟨huses, -⟩
  · rcases m.procedure.placements_spec with ⟨placed, hok, -⟩ | ⟨error', herror', hcases⟩
    · rw [hok] at hplaced
      cases hplaced
    · obtain rfl : error' = error := Except.error.inj (herror'.symm.trans hplaced)
      cases hcases with
      | unknown hi hl => exact absurd (h.lt hi) (Nat.not_lt.mpr hl)
      | duplicate _ _ _ => exact Or.inr ⟨_, _, rfl⟩
  · have hplaces := Procedure.places_of_placements hplaced
    obtain ⟨k, st, hk, hst⟩ := Procedure.exists_of_findTargets_eq_error htargets
    cases st with
    | jump t mode x =>
        obtain ⟨i, target, value, l, -, rfl, hl, -⟩ := h.jump_of k t mode x hk
        exact Or.inl ⟨_, _,
          (Procedure.findStmtTarget_label_eq_error hplaces (h.named.lt hl) hst).1⟩
    | _ => cases hst
  · obtain ⟨uses, -, huses', -⟩ := hp.exists_sharedUses
    rw [huses] at huses'
    cases huses'

theorem eq_some_iff_jumpsTo (h : LaidOut s m) {placed : Array (Option Nat)}
    (hplaces : Procedure.Places m.procedure.labels.size m.procedure.body.toList placed)
    {byName : Std.HashMap String LabelId} {st : StackIR.Stmt} (hst : st ∈ m.procedure.body.toList)
    {k : Nat} {target? : Option LabelId}
    (hok : m.procedure.findStmtTarget placed byName (st, k) = .ok target?) (l : LabelId) :
    target? = some l ↔ st.jumpsTo l = true := by
  obtain ⟨j, hj⟩ := List.mem_iff_getElem?.mp hst
  cases st with
  | jump t mode x =>
      obtain ⟨i, target, value, l', -, rfl, hl, -⟩ := h.jump_of j t mode x hj
      obtain ⟨rfl, -⟩ := (h.findStmtTarget_eq_ok hplaces hl).mp hok
      simp [StackIR.Stmt.jumpsTo]
  | _ =>
      obtain rfl := Except.ok.inj hok
      simp [StackIR.Stmt.jumpsTo]

theorem count_targets (h : LaidOut s m) {placed : Array (Option Nat)}
    {targets : Array (Option LabelId)}
    (hplaces : Procedure.Places m.procedure.labels.size m.procedure.body.toList placed)
    (htargets : m.procedure.findTargets placed = .ok targets) (l : LabelId) :
    targets.toList.count (some l) = m.procedure.body.toList.countP (StackIR.Stmt.jumpsTo l) := by
  have hcount : ∀ (ss : List StackIR.Stmt) (k : Nat) (ts : List (Option LabelId)),
      (∀ st ∈ ss, st ∈ m.procedure.body.toList) →
      List.Forall₂ (fun s target? => m.procedure.findStmtTarget placed
        (m.procedure.placedByName placed) s = .ok target?) (ss.zipIdx k) ts →
      ts.count (some l) = ss.countP (StackIR.Stmt.jumpsTo l) := by
    intro ss
    induction ss with
    | nil =>
        intro k ts _ hts
        cases hts
        rfl
    | cons st ss ih =>
        intro k ts hmem hts
        rw [List.zipIdx_cons] at hts
        cases hts with
        | @cons _ target? _ ts hok hts =>
            have hiff := h.eq_some_iff_jumpsTo hplaces (hmem st List.mem_cons_self) hok l
            rw [List.count_cons, List.countP_cons,
              ih (k + 1) ts (fun x hx => hmem x (List.mem_cons_of_mem _ hx)) hts]
            simp only [beq_iff_eq, hiff]
  exact hcount _ 0 _ (fun _ h => h) (Procedure.findTargets_eq_ok.mp htargets)

/-- What is found for each label and each jump is what the script says. -/
theorem follows (h : LaidOut s m) {r : LinkedProcedure} (hr : m.procedure.link = .ok r) :
    s.Follows r fun name => (m.labels[name]?).getD 0 := by
  obtain ⟨placed, targets, uses, hplaced, htargets, -, rfl⟩ := Procedure.link_eq_ok.mp hr
  have hplaces := Procedure.places_of_placements hplaced
  refine ⟨fun name name' hname hname' heq => ?_, fun name hname => ?_, fun j name hj => ?_,
    fun i target mode value hi => ?_, fun name hname => ?_, fun k hk => ?_⟩
  · obtain ⟨l, hl⟩ := h.exists_label hname
    obtain ⟨l', hl'⟩ := h.exists_label hname'
    rw [hl, hl', Option.getD_some, Option.getD_some] at heq
    exact h.named.injective hl (heq ▸ hl')
  · obtain ⟨l, hl⟩ := h.exists_label hname
    rw [hl, Option.getD_some]
    show m.procedure.labels.getD l "?" = _
    rw [Array.getD_eq_getD_getElem?, h.named name l hl, Option.getD_some]
  · obtain ⟨l, hl⟩ := h.label_at j name hj
    have hat := (hplaces.eq_some_iff l (s.offset j)).mpr
      ((h.label_iff _ l).mpr ⟨j, name, hj, hl, rfl⟩)
    rw [hl, Option.getD_some]
    show placed.getD l none = _
    rw [Array.getD_eq_getD_getElem?, hat, Option.getD_some]
  · obtain ⟨l, x, hl, hbody⟩ := h.jump_at i target mode value hi
    obtain ⟨target?, hget, hok⟩ := Procedure.getElem?_of_findTargets htargets hbody
    obtain ⟨rfl, -⟩ := (h.findStmtTarget_eq_ok hplaces hl).mp hok
    rw [hl, Option.getD_some]
    refine ⟨?_, x, by simpa using hbody⟩
    show targets.getD (s.offset i) none = _
    rw [Array.getD_eq_getD_getElem?, hget, Option.getD_some]
  · obtain ⟨l, hl⟩ := h.exists_label hname
    rw [hl, Option.getD_some, ← h.countP_eq name l hl, ← h.count_targets hplaces htargets l]
    show (m.procedure.countIncoming targets).getD l 0 = _
    rw [Array.getD_eq_getD_getElem?, Procedure.getElem?_countIncoming targets (h.named.lt hl),
      Option.getD_some]
  · show targets.getD k none = none
    rw [Array.getD_eq_getD_getElem?]
    cases hget : targets[k]? with
    | none => rfl
    | some target? =>
        have hlt := (Array.getElem?_eq_some_iff.mp hget).1
        rw [Procedure.size_of_findTargets htargets] at hlt
        obtain ⟨target', hget', hok⟩ := Procedure.getElem?_of_findTargets htargets
          (List.getElem?_eq_getElem hlt)
        obtain rfl := Option.some.inj (hget.symm.trans hget')
        cases hst : m.procedure.body.toList[k] with
        | jump t mode x =>
            obtain ⟨i, target, value, -, hi, -, -, hki⟩ := h.jump_of k t mode x
              (by rw [List.getElem?_eq_getElem hlt, hst])
            exact absurd hki (hk i target mode value hi)
        | _ =>
            rw [hst] at hok
            obtain rfl := Except.ok.inj hok
            rfl

end LaidOut

theorem exists_lower_take {s : Script} {p : Procedure} (h : s.lower = .ok p) (i : Nat) :
    ∃ q, Script.lower { s with body := s.body.take i } = .ok q := by
  obtain ⟨q, hq, -⟩ := exists_lower_cut h i
  exact ⟨q, hq⟩

/-- The control flow of a lowered script is that of the script. Its offsets are the numbers of
statements that its first statements come to. Its procedure links exactly when the script is
linkable, and else a label is placed nowhere or twice; a label that was never made is not found.
When it links, each jump, which stands at the offset of its statement, goes to the label that stands
at the offset of the statement that places the name. -/
theorem link_of_lower {s : Script} {p : Procedure} (h : s.lower = .ok p) :
    (∀ i, ∃ q, Script.lower { s with body := s.body.take i } = .ok q ∧
      q.body.size = s.offset i) ∧
    ((∃ r, p.link = .ok r) ↔ s.Linkable) ∧
    (∀ error, p.link = .error error →
      (∃ name i, error = .undefinedLabel name i) ∨ ∃ name i, error = .duplicateLabel name i) ∧
    ∀ r, p.link = .ok r → r.procedure = p ∧ ∃ handle, s.Follows r handle := by
  have hwalk := (built_of_lower h).wellFormed.toWalkable
  obtain ⟨m, rfl, hlaid⟩ := laidOut_of_lower h
  refine ⟨fun i => ?_, ⟨fun ⟨r, hr⟩ => hlaid.linkable_of_link hr, hlaid.exists_link hwalk⟩,
    fun error => hlaid.error_cases hwalk, fun r hr => ⟨?_, _, hlaid.follows hr⟩⟩
  · obtain ⟨q, hq⟩ := exists_lower_take h i
    obtain ⟨m', rfl, hlaid'⟩ := laidOut_of_lower hq
    refine ⟨m'.procedure, hq, hlaid'.size_eq.trans ?_⟩
    unfold offset
    rw [List.take_length]
    rfl
  · obtain ⟨_, _, _, _, _, _, rfl⟩ := Procedure.link_eq_ok.mp hr
    rfl

/-- The entry point of a program that jumps over the end of its scope, where it keeps its cells. -/
def jumpOver : Script where
  header := { isRoot := true }
  cells := []
  body := [.jump "out" .always none, .clearAll, .label "out"]

/-- The label comes right behind the jump, as nothing is given up between them. -/
theorem link_jumpOver : ∃ p r l, jumpOver.lower = .ok p ∧ p.link = .ok r ∧
    r.target? 0 = some l ∧ r.placement? l = some 1 ∧ r.incoming l = 1 := by
  -- The jump comes first, so its label is looked for in an empty table.
  have hjump : Emission.lower ∅ { procedure := jumpOver.header.procedure }
      (.jump "out" .always none) = .ok (Emission.emit
        ⟨(jumpOver.header.procedure.newLabel "out").2, (∅ : Std.HashMap _ _).insert "out" 0⟩
        (.jump (.label 0) .always none)) := by
    have hlabel : Emission.label { procedure := jumpOver.header.procedure } "out" =
        (0, ⟨(jumpOver.header.procedure.newLabel "out").2,
          (∅ : Std.HashMap _ _).insert "out" 0⟩) := by
      simp [Emission.label, Procedure.newLabel, Header.procedure]
    simp only [Emission.lower, hlabel]
    rfl
  have hbody : ∃ m, jumpOver.body.foldlM (Emission.lower ∅)
      { procedure := jumpOver.header.procedure } = .ok m := by
    simp only [jumpOver, List.foldlM_cons]
    exact ⟨_, except_bind_eq_ok.mpr ⟨_, hjump, rfl⟩⟩
  obtain ⟨m, hm⟩ := hbody
  have h : jumpOver.lower = .ok m.procedure :=
    except_bind_eq_ok.mpr ⟨_, rfl, except_bind_eq_ok.mpr ⟨m, hm, rfl⟩⟩
  obtain ⟨-, hlink, -, hfollows⟩ := link_of_lower h
  have hlinkable : jumpOver.Linkable := by
    refine ⟨fun i j name hi hj => ?_, fun i target mode value hi => ⟨2, ?_⟩⟩
    · have hplace : ∀ (i : Nat), jumpOver.body[i]? = some (.label name) → i = 2 := by
        intro i hi
        rcases i with _ | _ | _ | i <;> simp [jumpOver] at hi ⊢
      rw [hplace i hi, hplace j hj]
    · rcases i with _ | _ | _ | i <;> simp [jumpOver] at hi ⊢
      exact hi.1
  obtain ⟨r, hr⟩ := hlink.mpr hlinkable
  obtain ⟨-, handle, hr'⟩ := hfollows r hr
  refine ⟨m.procedure, r, handle "out", h, hr, (hr'.jump_eq 0 "out" .always none rfl).1,
    hr'.placement?_eq 2 "out" rfl, ?_⟩
  exact hr'.incoming_eq "out" ⟨.label "out", by simp [jumpOver], rfl⟩

end StackIR.Script
