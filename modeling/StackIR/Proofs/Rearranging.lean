import StackIR.Proofs.Visits

/-!
# Order does not matter to the use counts

A procedure may have its statements in another order and the operands of its nodes in another order
(`Procedure.Rearranges`). It links just the same, and every shared expression keeps its number of
uses (`totalUses_eq_visits`), because the equations of the visits do not change
(`Rearranges.isVisits`).
-/

namespace StackIR.Procedure

/-- The second procedure has the statements of the first in some order, and at each position of the
arena a node with the same operands in some order. -/
structure Rearranges (p q : Procedure) : Prop where
  body : p.body.toList.Perm q.body.toList
  labels : q.labels = p.labels
  size : q.arena.size = p.arena.size
  node : ∀ e n, p.arena.get? e = some n →
    ∃ m, q.arena.get? e = some m ∧ m.isShared = n.isShared ∧ m.operands.Perm n.operands

namespace Rearranges

variable {p q : Procedure}

/-! ## Visits -/

theorem isShared_eq (h : p.Rearranges q) (e : ExprId) :
    q.arena.isShared e = p.arena.isShared e := by
  cases he : p.arena.get? e with
  | some n =>
      obtain ⟨m, hm, hshared, -⟩ := h.node e n he
      rw [Arena.isShared_eq hm, Arena.isShared_eq he, hshared]
  | none =>
      have hsize := Array.getElem?_eq_none_iff.mp he
      have hnone : q.arena.get? e = none := by
        refine Array.getElem?_eq_none_iff.mpr ?_
        have hq : q.arena.nodes.size = p.arena.nodes.size := h.size
        rwa [hq]
      simp [Arena.isShared, he, hnone]

theorem operandCount_eq (h : p.Rearranges q) {u : ExprId} (hu : u < p.arena.size) (v : ExprId) :
    q.arena.operandCount u v = p.arena.operandCount u v := by
  obtain ⟨n, hn⟩ := Arena.exists_get?_of_lt hu
  obtain ⟨m, hm, -, hperm⟩ := h.node u n hn
  rw [Arena.operandCount_eq hm, Arena.operandCount_eq hn, hperm.count_eq]

theorem isVisits (h : p.Rearranges q) {visits : ExprId → Nat} (hvisits : p.IsVisits visits) :
    q.IsVisits visits := by
  rw [isVisits_iff] at hvisits ⊢
  intro v hv
  rw [h.size] at hv
  rw [hvisits v hv]
  have hroots : q.roots.count v = p.roots.count v := ((h.body.filterMap _).count_eq v).symm
  have hinflow : q.arena.inflow visits v = p.arena.inflow visits v := by
    unfold Arena.inflow
    rw [h.size]
    refine Finset.sum_congr rfl fun u hu => ?_
    unfold Arena.entries
    rw [h.isShared_eq, h.operandCount_eq (Finset.mem_range.mp hu)]
  rw [hroots, hinflow]

theorem walkable (h : p.Rearranges q) (hp : p.Walkable) : q.Walkable where
  operandsPrecede e m hm x hx := by
    have he : e < p.arena.size := h.size ▸ Arena.lt_size_of_get? hm
    obtain ⟨n, hn⟩ := Arena.exists_get?_of_lt he
    obtain ⟨m', hm', -, hperm⟩ := h.node e n hn
    obtain rfl : m = m' := Option.some.inj (hm.symm.trans hm')
    exact hp.operandsPrecede e n hn x (hperm.mem_iff.mp hx)
  roots_lt s hs e he := by
    rw [h.size]
    exact hp.roots_lt s (h.body.mem_iff.mpr hs) e he

/-! ## Linking -/

private theorem unique_iff_pairwise {ss : List Stmt} :
    (∀ (i j : Nat) (l : LabelId), ss[i]? = some (Stmt.label l) → ss[j]? = some (Stmt.label l) →
      i = j) ↔ ss.Pairwise fun s t => ∀ l, ¬(s = Stmt.label l ∧ t = Stmt.label l) := by
  rw [List.pairwise_iff_getElem]
  constructor
  · intro h i j hi hj hlt l hl
    refine absurd (h i j l ?_ ?_) (Nat.ne_of_lt hlt)
    · rw [List.getElem?_eq_getElem hi, hl.1]
    · rw [List.getElem?_eq_getElem hj, hl.2]
  · intro h i j l hi hj
    obtain ⟨hilt, hi⟩ := List.getElem?_eq_some_iff.mp hi
    obtain ⟨hjlt, hj⟩ := List.getElem?_eq_some_iff.mp hj
    rcases Nat.lt_trichotomy i j with hlt | heq | hgt
    · exact absurd ⟨hi, hj⟩ (h i j hilt hjlt hlt l)
    · exact heq
    · exact absurd ⟨hj, hi⟩ (h j i hjlt hilt hgt l)

theorem exists_placements (h : p.Rearranges q) {placed : Array (Option Nat)}
    (hplaced : p.placements = .ok placed) :
    ∃ placed', q.placements = .ok placed' ∧ Places q.labels.size q.body.toList placed' := by
  have hplaces := places_of_placements hplaced
  refine placements_eq_ok (fun i l hi => ?_) ?_
  · obtain ⟨j, hj⟩ := List.mem_iff_getElem?.mp (h.body.mem_iff.mpr (List.mem_of_getElem? hi))
    rw [h.labels]
    exact hplaces.lt hj
  · rw [unique_iff_pairwise, ← h.body.pairwise_iff fun hst l hl => hst l ⟨hl.2, hl.1⟩,
      ← unique_iff_pairwise]
    exact fun i j l hi hj => hplaces.unique hi hj

theorem map_isSome_eq (h : p.Rearranges q) {placed placed' : Array (Option Nat)}
    (hplaces : Places p.labels.size p.body.toList placed)
    (hplaces' : Places q.labels.size q.body.toList placed') :
    placed'.map Option.isSome = placed.map Option.isSome := by
  have hiff : ∀ (l : LabelId), (∃ i, placed'[l]? = some (some i)) ↔
      ∃ i, placed[l]? = some (some i) := fun l => by
    simp only [hplaces.eq_some_iff, hplaces'.eq_some_iff, ← List.mem_iff_getElem?]
    exact h.body.mem_iff.symm
  refine Array.ext (by simp [hplaces.size_eq, hplaces'.size_eq, h.labels]) fun l hl hl' => ?_
  rw [Array.size_map] at hl hl'
  rw [Array.getElem_map, Array.getElem_map, Bool.eq_iff_iff, Option.isSome_iff_exists,
    Option.isSome_iff_exists]
  simpa [Array.getElem?_eq_getElem hl, Array.getElem?_eq_getElem hl'] using hiff l

/-- Labels are found by name through nothing but which of them are placed. -/
theorem placedByName_eq (hlabels : q.labels = p.labels) {placed placed' : Array (Option Nat)}
    (h : placed'.map Option.isSome = placed.map Option.isSome) :
    q.placedByName placed' = p.placedByName placed := by
  have hfold : ∀ (r : Procedure) (at? : Array (Option Nat)), r.placedByName at? =
      (r.labels.zip (at?.map Option.isSome)).toList.zipIdx.foldl
        (fun m x => if x.1.2 then m.insert x.1.1 x.2 else m) ∅ := fun r at? => by
    rw [Array.zip_map_right, Array.toList_map, List.zipIdx_map, List.foldl_map]
    rfl
  rw [hfold, hfold, h, hlabels]

/-- Where a jump finds its label does not depend on the order of the statements. -/
theorem findStmtTarget_eq_ok (h : p.Rearranges q) {placed placed' : Array (Option Nat)}
    (hsome : placed'.map Option.isSome = placed.map Option.isSome) {s : Stmt} {i j : Nat}
    {target? : Option LabelId}
    (hs : p.findStmtTarget placed (p.placedByName placed) (s, i) = .ok target?) :
    q.findStmtTarget placed' (q.placedByName placed') (s, j) = .ok target? := by
  rw [placedByName_eq h.labels hsome]
  have hat : ∀ l : Nat, placed'[l]?.map Option.isSome = placed[l]?.map Option.isSome := fun l => by
    rw [← Array.getElem?_map, ← Array.getElem?_map, hsome]
  cases s with
  | jump target mode value =>
      cases target with
      | label l =>
          have hl := hat l
          simp only [findStmtTarget, findTarget] at hs ⊢
          rcases hplaced : placed[l]? with _ | _ | k
          · simp [hplaced, Functor.map, Except.map] at hs
          · simp [hplaced, Functor.map, Except.map] at hs
          · rcases hplaced' : placed'[l]? with _ | _ | k'
            · simp [hplaced, hplaced'] at hl
            · simp [hplaced, hplaced'] at hl
            · simpa [hplaced] using hs
      | name name =>
          simp only [findStmtTarget, findTarget] at hs ⊢
          cases hname : (p.placedByName placed)[name]? with
          | none => simp [hname, Functor.map, Except.map] at hs
          | some l => simpa [hname] using hs
  | _ => exact hs

theorem exists_link (h : p.Rearranges q) (hp : p.Walkable) {r : LinkedProcedure}
    (hr : p.link = .ok r) : ∃ r', q.link = .ok r' := by
  obtain ⟨placed, targets, uses, hplaced, htargets, -, -⟩ := link_eq_ok.mp hr
  obtain ⟨placed', hplaced', hplaces'⟩ := h.exists_placements hplaced
  have hsome := h.map_isSome_eq (places_of_placements hplaced) hplaces'
  obtain ⟨targets', htargets'⟩ := exists_findTargets fun j s hj => by
    obtain ⟨i, hi⟩ := List.mem_iff_getElem?.mp (h.body.mem_iff.mpr (List.mem_of_getElem? hj))
    obtain ⟨target?, -, hok⟩ := getElem?_of_findTargets htargets hi
    exact ⟨target?, h.findStmtTarget_eq_ok hsome hok⟩
  obtain ⟨uses', -, huses', -⟩ := (h.walkable hp).exists_sharedUses
  exact ⟨_, link_eq_ok.mpr ⟨placed', targets', uses', hplaced', htargets', huses', rfl⟩⟩

end Rearranges

/-! ## Use counts -/

variable {p : Procedure}

/-- The total uses of a linked procedure are the visits of its shared expressions. -/
theorem Walkable.totalUses_eq (hp : p.Walkable) {r : LinkedProcedure} (hr : p.link = .ok r)
    {visits : ExprId → Nat} (hvisits : p.IsVisits visits) (e : ExprId) :
    r.totalUses e = if p.arena.isShared e then visits e else 0 := by
  obtain ⟨placed, targets, uses, -, -, huses, rfl⟩ := link_eq_ok.mp hr
  obtain ⟨uses', visits', huses', hvisits', htotal⟩ := hp.exists_sharedUses
  obtain rfl : uses = uses' := Option.some.inj (huses.symm.trans huses')
  refine (htotal e).trans ?_
  cases he : p.arena.get? e with
  | none => simp [Arena.isShared, he]
  | some n => rw [hvisits'.unique hp.operandsPrecede hvisits e (Arena.lt_size_of_get? he)]

/-- The uses that linking counts are exact: the visits of the body are the one solution of their
equations, and each shared expression is used as often as it is visited, other expressions never.
So the counts are the same in whatever order the statements and the operands stand. -/
theorem totalUses_eq_visits {r : LinkedProcedure} (hp : p.Built) (hr : p.link = .ok r) :
    (∃ visits, p.IsVisits visits ∧
      (∀ visits', p.IsVisits visits' → ∀ e, e < p.arena.size → visits' e = visits e) ∧
      ∀ e, r.totalUses e = if p.arena.isShared e then visits e else 0) ∧
    ∀ q, p.Rearranges q → ∃ r', q.link = .ok r' ∧ ∀ e, r'.totalUses e = r.totalUses e := by
  have hwalk := hp.wellFormed.toWalkable
  obtain ⟨uses, visits, -, hvisits, -⟩ := hwalk.exists_sharedUses
  refine ⟨⟨visits, hvisits, fun visits' h' => h'.unique hwalk.operandsPrecede hvisits,
    hwalk.totalUses_eq hr hvisits⟩, fun q hq => ?_⟩
  obtain ⟨r', hr'⟩ := hq.exists_link hwalk hr
  refine ⟨r', hr', fun e => ?_⟩
  rw [hwalk.totalUses_eq hr hvisits, (hq.walkable hwalk).totalUses_eq hr' (hq.isVisits hvisits),
    hq.isShared_eq]

/-- A shared call under a shared field, both used more than once. -/
def nestedSharing : Procedure where
  id := 0
  arena := ⟨#[.runtimeCall "f" false [], .shared 0, .field 1 0, .shared 2, .sequence [3, 3, 1]]⟩
  body := #[.expr 4, .expr 1]

theorem nestedSharing_built : nestedSharing.Built := by
  refine ⟨0, none, ?_⟩
  have harena : ({} : Arena).BuildsTo nestedSharing.arena :=
    (((((Relation.ReflTransGen.refl.tail (.node (.runtimeCall "f" false []) rfl (by decide))).tail
      (.share 0 (by decide))).tail (.node (.field 1 0) rfl (by decide))).tail
      (.share 2 (by decide))).tail (.node (.sequence [3, 3, 1]) rfl (by decide)))
  exact ((buildsTo_build harena).tail (.emit (.expr 4) (by decide))).tail
    (.emit (.expr 1) (by decide))

/-- The call is used three times in whatever order: by a statement, by the field, which is entered
once, and by the sequence. -/
theorem totalUses_nestedSharing :
    ∃ r, nestedSharing.link = .ok r ∧ r.totalUses 1 = 3 ∧ r.totalUses 3 = 2 ∧
      r.totalUses 4 = 0 := by
  obtain ⟨uses, -, huses, -⟩ := nestedSharing_built.wellFormed.toWalkable.exists_sharedUses
  have hlink := link_eq_ok.mpr ⟨#[], #[none, none], uses, rfl, rfl, huses, rfl⟩
  obtain ⟨⟨visits, -, hunique, htotal⟩, -⟩ := totalUses_eq_visits nestedSharing_built hlink
  have hvisits : nestedSharing.IsVisits fun e => #[1, 3, 1, 2, 1].getD e 0 := by
    unfold IsVisits
    decide
  have h := hunique _ hvisits
  refine ⟨_, hlink, ?_, ?_, ?_⟩
  · rw [htotal, ← h 1 (by decide)]
    decide
  · rw [htotal, ← h 3 (by decide)]
    decide
  · exact htotal 4

end StackIR.Procedure
