import StackIR.Proofs.References

/-!
# The outlines of a body

The statements of a lowered body have outlines that lie in stretches of the arena of their own
(`Script.Stretches.exists_trees`). So a node is referred to by one statement only (`exists_tree`),
and whatever runs before that statement, a second reference to a shared node is passed only behind
the first one (`IsComputedInPlace.exists_passed`).
-/

namespace StackIR.Script

open Arena

/-! ## Outlines one after another -/

/-- The outlines of statements that take over the nodes of an arena up to a position, and the nodes
shown by then. -/
structure Trees (c : Arena) (hi : Nat) (trees : List (Option Outline)) (shown : Shown) : Prop where
  mem_lt : ∀ o? ∈ trees, ∀ v : Nat, v ∈ stmtNodes o? → v < hi
  enters_eq : ∀ o, some o ∈ trees → ∀ v, c.isShared v = true →
    enters (o.references false) v = firstOnly false (o.nodes.count v)
  calm : ∀ o, some o ∈ trees → c.Calm (o.references false)
  disjoint : trees.Pairwise fun o? o?' => (stmtNodes o?).Disjoint (stmtNodes o?')
  settled : ∀ bound, c.Settled bound shown
  shown_lt : ∀ v : Nat, c.isShared v = true → shown.contains v = true → v < hi

namespace Trees

variable {c : Arena} {mid hi : Nat} {trees : List (Option Outline)} {shown shown' : Shown}

theorem nil (c : Arena) : Trees c 0 [] ∅ where
  mem_lt := by simp
  enters_eq := by simp
  calm := by simp
  disjoint := List.Pairwise.nil
  settled bound x z _ hx := by simp at hx
  shown_lt := by simp

/-- A statement without an expression adds nothing. -/
theorem concat_none (h : Trees c mid trees shown) (hmid : mid ≤ hi) :
    Trees c hi (trees ++ [none]) shown where
  mem_lt o? ho v hv := by
    rcases List.mem_append.mp ho with ho | ho
    · exact Nat.lt_of_lt_of_le (h.mem_lt o? ho v hv) hmid
    · rw [List.mem_singleton.mp ho] at hv
      cases hv
  enters_eq o ho := h.enters_eq o (by simpa using ho)
  calm o ho := h.calm o (by simpa using ho)
  disjoint := List.pairwise_append.mpr ⟨h.disjoint, List.pairwise_singleton _ _, by
    intro o? _ o?' ho'
    rw [List.mem_singleton.mp ho']
    exact List.disjoint_nil_right _⟩
  settled := h.settled
  shown_lt v hv hv' := Nat.lt_of_lt_of_le (h.shown_lt v hv hv') hmid

/-- The outline of a node whose stretch starts where the others end. -/
theorem concat_some (ha : c.ReleasesLate) (h : Trees c mid trees shown)
    {e : Nat} (howned : Owned c mid hi [e])
    (hroot : ∀ z, c.get? e = some (.release z) → c.isShared z = false) {o : Outline}
    (ho : c.outline e shown = some (o, shown')) : Trees c hi (trees ++ [some o]) shown' := by
  obtain ⟨hlo, hhi⟩ := howned.of_mem List.mem_cons_self
  have hstretch : ∀ v : Nat, v ∈ o.nodes → mid ≤ v ∧ v < hi := fun v hv =>
    mem_stretch_of_mem_outline (fun u n hu hu' hn => howned.operand_le hu hu' hn) hlo hhi ho hv
  have hcalm := fun bound (hbound : e < bound) =>
    calm_outline ha hbound ho (h.settled bound) hroot
  constructor
  case mem_lt =>
    intro o? ho? v hv
    rcases List.mem_append.mp ho? with ho? | ho?
    · exact Nat.lt_of_lt_of_le (h.mem_lt o? ho? v hv) howned.le
    · rw [List.mem_singleton.mp ho?] at hv
      exact (hstretch v hv).2
  case enters_eq =>
    intro o' ho' v hv
    rcases List.mem_append.mp ho' with ho' | ho'
    · exact h.enters_eq o' ho' v hv
    · obtain rfl := Option.some.inj (List.mem_singleton.mp ho')
      by_cases hmem : v ∈ o'.nodes
      · -- No node of this stretch was shown before.
        have hnew : shown.contains v = false := by
          rw [Bool.eq_false_iff]
          intro hcontains
          have hlt := h.shown_lt v hv hcontains
          have hle := (hstretch v hmem).1
          exact absurd hlt (Nat.not_lt.mpr hle)
        rw [enters_outline hv ho, hnew]
      · rw [enters_outline hv ho, List.count_eq_zero.mpr hmem]
        rfl
  case calm =>
    intro o' ho'
    rcases List.mem_append.mp ho' with ho' | ho'
    · exact h.calm o' ho'
    · obtain rfl := Option.some.inj (List.mem_singleton.mp ho')
      exact (hcalm (e + 1) (Nat.lt_succ_self e)).2
  case disjoint =>
    refine List.pairwise_append.mpr ⟨h.disjoint, List.pairwise_singleton _ _, ?_⟩
    intro o? ho? o?' ho?' v hv hv'
    rw [List.mem_singleton.mp ho?'] at hv'
    have hlt := h.mem_lt o? ho? v hv
    exact absurd hlt (Nat.not_lt.mpr (hstretch v hv').1)
  case settled =>
    intro bound
    exact (hcalm (max bound (e + 1)) (by omega)).1.mono (Nat.le_max_left _ _)
  case shown_lt =>
    intro v hv hcontains
    rcases (contains_outline hv ho).mp hcontains with hold | hmem
    · exact Nat.lt_of_lt_of_le (h.shown_lt v hv hold) howned.le
    · exact (hstretch v hmem).2

end Trees

/-- The statements of a body have outlines, each in its own stretch of the arena. -/
theorem Stretches.exists_trees {c : Arena} (ha : c.ReleasesLate) (hprec : c.OperandsPrecede)
    {ss : List StackIR.Stmt} {hi : Nat} (h : Stretches c ss hi) :
    hi ≤ c.size → ∃ trees shown, ss.mapM c.outlineStmt ∅ = some (trees, shown) ∧
      Trees c hi trees shown := by
  induction h with
  | nil => exact fun _ => ⟨[], ∅, rfl, Trees.nil c⟩
  | @concat ss st mid hi _ howned hroot ih =>
      intro hhi
      obtain ⟨trees, shown, hss, htrees⟩ := ih (Nat.le_trans howned.le hhi)
      rw [mapM_concat_apply, hss, Option.bind_some]
      cases he : st.expr? with
      | none =>
          rw [outlineStmt_of_none he]
          exact ⟨_, shown, rfl, htrees.concat_none howned.le⟩
      | some e =>
          rw [he] at howned
          have hlt := (howned.of_mem List.mem_cons_self).2
          obtain ⟨o, shown', ho⟩ := hprec.exists_outline (Nat.lt_of_lt_of_le hlt hhi) shown
          rw [outlineStmt_of_some he, ho]
          exact ⟨_, shown', rfl, htrees.concat_some ha howned (fun z hz => hroot e z he hz) ho⟩

/-- Of two references to a shared node, the first one enters it, and not under a release. -/
theorem Trees.references_eq {c : Arena} {hi : Nat} {trees : List (Option Outline)} {shown : Shown}
    (h : Trees c hi trees shown) {o : Outline} (ho : some o ∈ trees) {v : ExprId}
    (hv : c.isShared v = true) (hcount : o.nodes.count v = 2) :
    ∃ released, (o.references false).filter (·.node = v) =
      [⟨v, true, false⟩, ⟨v, false, released⟩] := by
  have henters := h.enters_eq o ho v hv
  rw [hcount] at henters
  unfold enters at henters
  obtain ⟨r, rs, hfilter, hr, hrs⟩ := List.map_eq_cons_iff.mp henters
  obtain ⟨r', rs', rfl, hr', hrs'⟩ := List.map_eq_cons_iff.mp hrs
  obtain rfl := List.map_eq_nil_iff.mp hrs'
  have hmem : ∀ x ∈ [r, r'], x ∈ o.references false ∧ x.node = v := fun x hx => by
    rw [← hfilter] at hx
    simpa using List.mem_filter.mp hx
  obtain ⟨hrmem, hrv⟩ := hmem r (by simp)
  obtain ⟨-, hrv'⟩ := hmem r' (by simp)
  have hrcalm := h.calm o ho r hrmem hr (by rwa [hrv])
  refine ⟨r'.released, ?_⟩
  rw [hfilter]
  obtain ⟨node, enters, released⟩ := r
  obtain ⟨node', enters', released'⟩ := r'
  simp only at hr hr' hrv hrv' hrcalm
  subst hr hr' hrv hrv' hrcalm
  rfl

/-- A node that the outlines refer to is in the outline of one statement. -/
theorem exists_tree {trees : List (Option Outline)} {v : ExprId}
    (h : trees.Pairwise fun o? o?' => (stmtNodes o?).Disjoint (stmtNodes o?'))
    (hv : v ∈ trees.flatMap stmtNodes) :
    ∃ (i : Nat) (o : Outline), trees[i]? = some (some o) ∧
      o.nodes.count v = (trees.flatMap stmtNodes).count v ∧
        ∀ (j : Nat) (o' : Outline), trees[j]? = some (some o') → v ∈ o'.nodes → j = i := by
  induction trees with
  | nil => cases hv
  | cons o? os ih =>
      obtain ⟨hfirst, hrest⟩ := List.pairwise_cons.mp h
      rw [List.flatMap_cons, List.count_append]
      by_cases hmem : v ∈ stmtNodes o?
      · cases o? with
        | none => cases hmem
        | some o =>
            have hnot : v ∉ os.flatMap stmtNodes := fun hos => by
              obtain ⟨o?', ho', hv'⟩ := List.mem_flatMap.mp hos
              exact hfirst o?' ho' hmem hv'
            refine ⟨0, o, rfl, ?_, fun j o' hj hv' => ?_⟩
            · rw [List.count_eq_zero.mpr hnot]
              rfl
            · cases j with
              | zero => rfl
              | succ j =>
                  have hj : os[j]? = some (some o') := hj
                  exact absurd (List.mem_flatMap.mpr ⟨some o', List.mem_of_getElem? hj, hv'⟩) hnot
      · rw [List.flatMap_cons, List.mem_append, or_iff_right hmem] at hv
        obtain ⟨i, o, hi, hcount, hunique⟩ := ih hrest hv
        refine ⟨i + 1, o, hi, ?_, fun j o' hj hv' => ?_⟩
        · rw [List.count_eq_zero.mpr hmem, Nat.zero_add, hcount]
        · cases j with
          | zero =>
              obtain rfl := Option.some.inj hj
              exact absurd hv' hmem
          | succ j => rw [hunique j o' hj hv']

/-- Two places refer to a node, in one statement. The first one enters it, and is not under a
release. -/
def IsComputedInPlace (trees : List (Option Outline)) (e : ExprId) : Prop :=
  ∃ (i : Nat) (o : Outline) (released : Bool), trees[i]? = some (some o) ∧
    (o.references false).filter (·.node = e) = [⟨e, true, false⟩, ⟨e, false, released⟩] ∧
      ∀ (j : Nat) (o' : Outline), trees[j]? = some (some o') → e ∈ o'.nodes → j = i

theorem Trees.isComputedInPlace {c : Arena} {hi : Nat} {trees : List (Option Outline)}
    {shown : Shown} (h : Trees c hi trees shown) {e : ExprId} (he : c.isShared e = true)
    (hcount : (trees.flatMap stmtNodes).count e = 2) : IsComputedInPlace trees e := by
  have hmem : e ∈ trees.flatMap stmtNodes := List.count_pos_iff.mp (by omega)
  obtain ⟨i, o, hi, hnodes, hunique⟩ := exists_tree h.disjoint hmem
  obtain ⟨released, hfilter⟩ := h.references_eq (List.mem_of_getElem? hi) he
    (hnodes.trans hcount)
  exact ⟨i, o, released, hi, hfilter, hunique⟩

/-! ## Running statements -/

/-- The references of statements with the given outlines that run one after another, each time from
the first reference of the statement to its last. -/
def passed (trees : List (Option Outline)) (run : List Nat) : List Reference :=
  run.flatMap fun i => trees[i]?.join.elim [] fun o => o.references false

/-- A second reference stands behind the one that enters the node. -/
theorem mem_of_references_eq {rs before rest : List Reference} {r : Reference} {released : Bool}
    (h : rs.filter (·.node = r.node) = [⟨r.node, true, false⟩, ⟨r.node, false, released⟩])
    (hr : r.enters = false) (hrs : rs = before ++ r :: rest) : ⟨r.node, true, false⟩ ∈ before := by
  rw [hrs, List.filter_append, List.filter_cons_of_pos (by simp)] at h
  cases hbefore : before.filter (·.node = r.node) with
  | nil =>
      rw [hbefore] at h
      rw [(List.cons.inj h).1] at hr
      cases hr
  | cons x xs =>
      rw [hbefore] at h
      obtain rfl := (List.cons.inj h).1
      exact (List.mem_filter.mp (hbefore ▸ List.mem_cons_self)).1

/-- A second reference to a node computed in place is passed behind the first one, since the
statement began. -/
theorem IsComputedInPlace.exists_passed {trees : List (Option Outline)} {r : Reference}
    (he : IsComputedInPlace trees r.node) (hr : r.enters = false) {run : List Nat}
    {before after : List Reference} (h : passed trees run = before ++ r :: after) :
    ∃ run₁ i run₂ within, run = run₁ ++ i :: run₂ ∧ before = passed trees run₁ ++ within ∧
      (within ++ [r]) <+: passed trees [i] ∧ ⟨r.node, true, false⟩ ∈ within := by
  induction run generalizing before with
  | nil => simp [passed] at h
  | cons i run ih =>
      have hcons : passed trees (i :: run) = passed trees [i] ++ passed trees run := by
        simp [passed]
      rw [hcons] at h
      have hsplit : (∃ before', before = passed trees [i] ++ before' ∧
          passed trees run = before' ++ r :: after) ∨
          ∃ rest, passed trees [i] = before ++ r :: rest := by
        rcases List.append_eq_append_iff.mp h with hlater | ⟨rest, hi, hrest⟩
        · exact Or.inl hlater
        · cases rest with
          | nil => exact Or.inl ⟨[], by simpa using hi.symm, hrest.symm⟩
          | cons x rest => exact Or.inr ⟨rest, by rw [hi, (List.cons.inj hrest).1]⟩
      rcases hsplit with ⟨before', rfl, hlater⟩ | ⟨rest, hi⟩
      · obtain ⟨run₁, j, run₂, within, rfl, rfl, hwithin⟩ := ih hlater
        exact ⟨i :: run₁, j, run₂, within, rfl, by simp [passed], hwithin⟩
      · refine ⟨[], i, run, before, rfl, rfl, ⟨rest, by simp [hi]⟩, ?_⟩
        rcases htree : trees[i]? with _ | _ | o
        · simp [passed, htree] at hi
        · simp [passed, htree] at hi
        · have hrefs : o.references false = before ++ r :: rest := by
            simpa [passed, htree] using hi
          have hnode : r.node ∈ o.nodes := by
            rw [← Outline.map_node_references false, hrefs]
            simp
          obtain ⟨k, o', released, hk, hfilter, hunique⟩ := he
          obtain rfl := hunique i o htree hnode
          obtain rfl := Option.some.inj (Option.some.inj (htree.symm.trans hk))
          exact mem_of_references_eq hfilter hr hrefs

end StackIR.Script
