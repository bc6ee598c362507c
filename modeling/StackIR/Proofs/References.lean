import StackIR.Proofs.Outlining
import StackIR.Proofs.Ownership

/-!
# References in outlines

An outline refers to nodes: in full, when it enters their operands, or once more. Of the references
to a shared node only the first enters it (`Arena.enters_outline`), and in an arena where values are
released behind the call that is handed them, none does so under a release
(`Arena.calm_outline`).
-/

namespace StackIR

def Node.isRelease : Node → Bool
  | .release _ => true
  | _ => false

/-- A place of an outline that refers to a node. -/
structure Reference where
  node : ExprId
  /-- Whether the operands of the node are shown at this place. -/
  enters : Bool
  /-- Whether the place is under a release. -/
  released : Bool
deriving Repr, DecidableEq

namespace Outline

mutual

/-- The references of an outline in order, which may stand under a release itself. -/
def references (released : Bool) : Outline → List Reference
  | .again e => [⟨e, false, released⟩]
  | .full e n operands => ⟨e, true, released⟩ :: referencesOf (released || n.isRelease) operands

def referencesOf (released : Bool) : List Outline → List Reference
  | [] => []
  | o :: os => o.references released ++ referencesOf released os

end

mutual

theorem map_node_references (released : Bool) : (o : Outline) →
    (o.references released).map (·.node) = o.nodes
  | .again e => rfl
  | .full e n operands => by
      rw [references, List.map_cons, nodes, map_node_referencesOf]

theorem map_node_referencesOf (released : Bool) : (os : List Outline) →
    (referencesOf released os).map (·.node) = nodesOf os
  | [] => rfl
  | o :: os => by
      rw [referencesOf, List.map_append, nodesOf, map_node_references, map_node_referencesOf]

end

end Outline

/-! ## Only the first reference enters -/

/-- Of each reference to a node in turn, whether it enters. -/
def enters (rs : List Reference) (v : ExprId) : List Bool :=
  (rs.filter (·.node = v)).map (·.enters)

/-- Of `n` references in turn, only the first enters, and not even that if one was seen before. -/
def firstOnly (seen : Bool) : Nat → List Bool
  | 0 => []
  | n + 1 => (!seen) :: List.replicate n false

theorem firstOnly_true (n : Nat) : firstOnly true n = List.replicate n false := by
  cases n <;> rfl

theorem firstOnly_append (seen : Bool) (m n : Nat) :
    firstOnly seen m ++ firstOnly (seen || decide (0 < m)) n = firstOnly seen (m + n) := by
  cases m with
  | zero => simp [firstOnly]
  | succ m =>
      have hm : (seen || decide (0 < m + 1)) = true := by simp
      rw [hm, firstOnly_true, Nat.succ_add]
      simp [firstOnly, List.replicate_append_replicate]

theorem enters_append (rs rs' : List Reference) (v : ExprId) :
    enters (rs ++ rs') v = enters rs v ++ enters rs' v := by
  simp [enters]

namespace Arena

variable {a : Arena}

private theorem entersCases (a : Arena) (v : ExprId) (hv : a.isShared v = true) : OutlineCases a
    (fun _ shown o shown' =>
      (∀ released, enters (o.references released) v =
        firstOnly (shown.contains v) (o.nodes.count v)) ∧
      shown'.contains v = (shown.contains v || decide (0 < o.nodes.count v)))
    (fun _ shown os shown' =>
      (∀ released, enters (Outline.referencesOf released os) v =
        firstOnly (shown.contains v) ((Outline.nodesOf os).count v)) ∧
      shown'.contains v = (shown.contains v || decide (0 < (Outline.nodesOf os).count v))) where
  again {e n shown} he hshared hcontains := by
    by_cases hev : e = v
    · subst hev
      simp [Outline.references, Outline.nodes, enters, firstOnly, hcontains]
    · simp [Outline.references, Outline.nodes, enters, firstOnly, hev]
  full {e n shown shown' os} he hfirst _ _ ih := by
    obtain ⟨henters, hshown⟩ := ih
    by_cases hev : e = v
    · subst hev
      rw [isShared_eq he] at hv
      have hshowing : (showing n e shown).contains e = true := by simp [showing, hv]
      rw [hshowing] at henters hshown
      refine ⟨fun released => ?_, by simp [hshown, Outline.nodes]⟩
      have hrest := henters (released || n.isRelease)
      rw [firstOnly_true] at hrest
      simpa [Outline.references, Outline.nodes, enters, firstOnly, hfirst hv] using hrest
    · have hshowing : (showing n e shown).contains v = shown.contains v := by
        unfold showing
        split
        · simp [hev]
        · rfl
      rw [hshowing] at henters hshown
      refine ⟨fun released => ?_, by simp [hshown, Outline.nodes, hev]⟩
      have hrest := henters (released || n.isRelease)
      simpa [Outline.references, Outline.nodes, enters, hev] using hrest
  nil := by simp [Outline.referencesOf, Outline.nodesOf, enters, firstOnly]
  cons {x xs shown s shown' o os} _ hx hxs := by
    obtain ⟨henters, hs⟩ := hx
    obtain ⟨henters', hshown⟩ := hxs
    refine ⟨fun released => ?_, ?_⟩
    · rw [Outline.referencesOf, enters_append, henters, henters', hs, firstOnly_append,
        Outline.nodesOf, List.count_append]
    · rw [hshown, hs, Outline.nodesOf, List.count_append, Bool.or_assoc]
      congr 1
      rw [Bool.eq_iff_iff]
      simp only [Bool.or_eq_true, decide_eq_true_eq]
      omega

/-- Of the references of an outline to a shared node only the first enters it, unless the node was
shown before. -/
theorem enters_outline {v : ExprId} (hv : a.isShared v = true) {e : ExprId}
    {shown shown' : Shown} {o : Outline} (h : a.outline e shown = some (o, shown'))
    (released : Bool) :
    enters (o.references released) v = firstOnly (shown.contains v) (o.nodes.count v) :=
  ((entersCases a v hv).of_outline h).1 released

/-- Outlining shows the shared nodes that it refers to. -/
theorem contains_outline {v : ExprId} (hv : a.isShared v = true) {e : ExprId}
    {shown shown' : Shown} {o : Outline} (h : a.outline e shown = some (o, shown')) :
    shown'.contains v = true ↔ shown.contains v = true ∨ v ∈ o.nodes := by
  rw [((entersCases a v hv).of_outline h).2]
  simp [List.count_pos_iff]

theorem contains_outlineOperands {v : ExprId} (hv : a.isShared v = true) {e : ExprId}
    {xs : List ExprId} {shown shown' : Shown} {os : List Outline}
    (h : a.outlineOperands e xs shown = some (os, shown')) :
    shown'.contains v = true ↔ shown.contains v = true ∨ v ∈ Outline.nodesOf os := by
  rw [((entersCases a v hv).of_outlineOperands h).2]
  simp [List.count_pos_iff]

/-! ## Which nodes an outline refers to -/

private theorem memCases (a : Arena) : OutlineCases a
    (fun e _ o _ => e ∈ o.nodes ∧ (∀ v ∈ o.nodes, v ≤ e) ∧
      ∀ n, a.get? e = some n → n.isShared = false → ∀ x ∈ n.operands, x ∈ o.nodes)
    (fun xs _ os _ => (∀ x ∈ xs, x ∈ Outline.nodesOf os) ∧
      (∀ v ∈ Outline.nodesOf os, ∃ x ∈ xs, v ≤ x) ∧
      ∀ x ∈ xs, ∀ n, a.get? x = some n → n.isShared = false →
        ∀ y ∈ n.operands, y ∈ Outline.nodesOf os) where
  again {e n shown} he hshared _ := by
    refine ⟨List.mem_singleton_self e, by simp [Outline.nodes], fun m hm hnot => ?_⟩
    obtain rfl := Option.some.inj (he.symm.trans hm)
    rw [hshared] at hnot
    cases hnot
  full {e n shown shown' os} he _ hlt _ ih := by
    obtain ⟨hmem, hle, -⟩ := ih
    refine ⟨List.mem_cons_self, fun v hv => ?_, fun m hm _ x hx => ?_⟩
    · rcases List.mem_cons.mp hv with rfl | hv
      · exact Nat.le_refl v
      · obtain ⟨x, hx, hvx⟩ := hle v hv
        exact Nat.le_trans hvx (Nat.le_of_lt (hlt x hx))
    · obtain rfl := Option.some.inj (he.symm.trans hm)
      exact List.mem_cons_of_mem _ (hmem x hx)
  nil := by simp [Outline.nodesOf]
  cons {x xs shown s shown' o os} _ hx hxs := by
    obtain ⟨hmem, hle, hops⟩ := hx
    obtain ⟨hmem', hle', hops'⟩ := hxs
    refine ⟨fun y hy => ?_, fun v hv => ?_, fun y hy n hn hshared z hz => ?_⟩
    · rcases List.mem_cons.mp hy with rfl | hy
      · exact List.mem_append_left _ hmem
      · exact List.mem_append_right _ (hmem' y hy)
    · rcases List.mem_append.mp hv with hv | hv
      · exact ⟨x, List.mem_cons_self, hle v hv⟩
      · obtain ⟨y, hy, hvy⟩ := hle' v hv
        exact ⟨y, List.mem_cons_of_mem _ hy, hvy⟩
    · rcases List.mem_cons.mp hy with rfl | hy
      · exact List.mem_append_left _ (hops n hn hshared z hz)
      · exact List.mem_append_right _ (hops' y hy n hn hshared z hz)

theorem le_of_mem_outline {e v : ExprId} {shown shown' : Shown} {o : Outline}
    (h : a.outline e shown = some (o, shown')) (hv : v ∈ o.nodes) : v ≤ e :=
  ((memCases a).of_outline h).2.1 v hv

private theorem closedCases {lo hi : Nat}
    (hclosed : ∀ (u : Nat) (n : Node), lo ≤ u → u < hi → a.get? u = some n →
      ∀ x ∈ n.operands, lo ≤ x) : OutlineCases a
    (fun e _ o _ => lo ≤ e → e < hi → ∀ v ∈ o.nodes, lo ≤ v)
    (fun xs _ os _ => (∀ x ∈ xs, lo ≤ x ∧ x < hi) → ∀ v ∈ Outline.nodesOf os, lo ≤ v) where
  again _ _ _ := by
    intro hlo _ v hv
    rwa [List.mem_singleton.mp hv]
  full {e n shown shown' os} he _ hlt _ ih := by
    intro hlo hhi v hv
    rcases List.mem_cons.mp hv with rfl | hv
    · exact hlo
    · exact ih (fun x hx => ⟨hclosed e n hlo hhi he x hx, Nat.lt_trans (hlt x hx) hhi⟩) v hv
  nil := by simp [Outline.nodesOf]
  cons {x xs shown s shown' o os} _ hx hxs := by
    intro hin v hv
    rcases List.mem_append.mp hv with hv | hv
    · exact hx (hin x List.mem_cons_self).1 (hin x List.mem_cons_self).2 v hv
    · exact hxs (fun y hy => hin y (List.mem_cons_of_mem _ hy)) v hv

/-- The outline of a node stays in a stretch of the arena that holds the operands of its nodes. -/
theorem mem_stretch_of_mem_outline {lo hi : Nat}
    (hclosed : ∀ (u : Nat) (n : Node), lo ≤ u → u < hi → a.get? u = some n →
      ∀ x ∈ n.operands, lo ≤ x) {e : Nat} (hlo : lo ≤ e) (hhi : e < hi) {shown shown' : Shown}
    {o : Outline} (h : a.outline e shown = some (o, shown')) {v : Nat} (hv : v ∈ o.nodes) :
    lo ≤ v ∧ v < hi :=
  ⟨(closedCases hclosed).of_outline h hlo hhi v hv,
    Nat.lt_of_le_of_lt (le_of_mem_outline h hv) hhi⟩

/-! ## No reference enters a shared node under a release -/

/-- Outlining a node enters no shared node: it was shown before, or has no operands. -/
def QuietAt (a : Arena) (shown : Shown) (e : ExprId) : Prop :=
  (a.isShared e = true ∧ shown.contains e = true) ∨
    a.isShared e = false ∧ ∃ n, a.get? e = some n ∧ n.operands = []

private theorem quietCases (a : Arena) : OutlineCases a
    (fun e shown o shown' => a.QuietAt shown e → shown' = shown ∧
      ∀ released, ∀ r ∈ o.references released, r.enters = true → a.isShared r.node = false)
    (fun xs shown os shown' => (∀ x ∈ xs, a.QuietAt shown x) → shown' = shown ∧
      ∀ released, ∀ r ∈ Outline.referencesOf released os, r.enters = true →
        a.isShared r.node = false) where
  again _ _ _ := by
    refine fun _ => ⟨rfl, fun released r hr henters => ?_⟩
    rw [List.mem_singleton.mp hr] at henters
    cases henters
  full {e n shown shown' os} he hfirst _ _ ih := by
    rintro (⟨hshared, hcontains⟩ | ⟨hshared, m, hm, hops⟩)
    · rw [isShared_eq he] at hshared
      rw [hfirst hshared] at hcontains
      cases hcontains
    · obtain rfl := Option.some.inj (he.symm.trans hm)
      obtain ⟨hshown, hquiet⟩ := ih (by simp [hops])
      have hshowing : showing n e shown = shown := by
        rw [isShared_eq he] at hshared
        rw [showing, hshared, if_neg Bool.false_ne_true]
      refine ⟨hshown.trans hshowing, fun released r hr henters => ?_⟩
      rcases List.mem_cons.mp hr with rfl | hr
      · exact hshared
      · exact hquiet _ r hr henters
  nil := by simp [Outline.referencesOf]
  cons {x xs shown s shown' o os} _ hx hxs := by
    intro hquiet
    obtain ⟨rfl, hrefs⟩ := hx (hquiet x List.mem_cons_self)
    obtain ⟨rfl, hrefs'⟩ := hxs fun y hy => hquiet y (List.mem_cons_of_mem _ hy)
    refine ⟨rfl, fun released r hr => ?_⟩
    rcases List.mem_append.mp hr with hr | hr
    · exact hrefs released r hr
    · exact hrefs' released r hr

/-- The values that the shared calls shown before a position are handed are shown as well. -/
def Settled (a : Arena) (bound : Nat) (shown : Shown) : Prop :=
  ∀ x z : Nat, x < bound → shown.contains x = true → a.HandsOn x z → a.isShared z = true →
    shown.contains z = true

theorem Settled.mono {bound bound' : Nat} {shown : Shown} (h : a.Settled bound' shown)
    (hle : bound ≤ bound') : a.Settled bound shown :=
  fun x z hx => h x z (Nat.lt_of_lt_of_le hx hle)

/-- No reference that enters a shared node is under a release. -/
def Calm (a : Arena) (rs : List Reference) : Prop :=
  ∀ r ∈ rs, r.enters = true → a.isShared r.node = true → r.released = false

/-- Values are released behind the call that is handed them. -/
structure ReleasesLate (a : Arena) : Prop where
  behind : ∀ {e : ExprId} {n : Node}, a.get? e = some n → a.ReleasesBehindCall n
  /-- What is released and not shared has no operands: it is a literal or a slot. -/
  operand : ∀ {e z : ExprId}, a.get? e = some (.release z) → a.isShared z = false →
    ∃ n, a.get? z = some n ∧ n.operands = []

theorem HandsOn.isShared {x z : ExprId} (h : a.HandsOn x z) : a.isShared x = true := by
  obtain ⟨call, _, _, _, hx, -⟩ := h
  rw [isShared_eq hx]
  rfl

theorem contains_showing {n : Node} {e x : ExprId} {shown : Shown} :
    (showing n e shown).contains x = true ↔
      shown.contains x = true ∨ n.isShared = true ∧ e = x := by
  unfold showing
  cases n.isShared with
  | true => simp [or_comm]
  | false => simp

private theorem calmCases (ha : a.ReleasesLate) : OutlineCases a
    (fun e shown o shown' => ∀ bound : Nat, e < bound → a.Settled bound shown →
      (∀ z, a.get? e = some (.release z) → a.isShared z = true → shown.contains z = true) →
      a.Settled bound shown' ∧ a.Calm (o.references false))
    (fun xs shown os shown' => ∀ bound : Nat, (∀ x ∈ xs, x < bound) → a.Settled bound shown →
      (∀ r ∈ xs, ∀ z, a.get? r = some (.release z) → a.isShared z = true →
        shown.contains z = true ∨ ∃ x ys, xs = x :: ys ∧ a.HandsOn x z) →
      a.Settled bound shown' ∧ a.Calm (Outline.referencesOf false os)) where
  again _ _ _ := by
    refine fun _ _ hsettled _ => ⟨hsettled, fun r hr henters => ?_⟩
    rw [List.mem_singleton.mp hr] at henters
    cases henters
  full {e n shown shown' os} he hfirst hlt hos ih := by
    intro bound hbound hsettled hready
    have hshowing : ∀ x, shown.contains x = true → (showing n e shown).contains x = true :=
      fun x hx => contains_showing.mpr (Or.inl hx)
    have hbelow : a.Settled e (showing n e shown) := fun x z hxe hx hhands hz => by
      rcases contains_showing.mp hx with hx | ⟨-, rfl⟩
      · exact hshowing z (hsettled x z (Nat.lt_trans hxe hbound) hx hhands hz)
      · exact absurd hxe (Nat.lt_irrefl e)
    obtain ⟨hsettled', hcalm⟩ := ih e hlt hbelow fun r hr z hz hshared =>
      Or.inr (ha.behind he r hr z hz hshared)
    have hcontains := fun {v} (hv : a.isShared v = true) => contains_outlineOperands hv hos
    obtain ⟨hmem, hle, hops⟩ := (memCases a).of_outlineOperands hos
    refine ⟨fun x z hxb hx hhands hz => ?_, fun r hr henters hshared => ?_⟩
    · rcases Nat.lt_trichotomy x e with hlt' | rfl | hgt
      · exact hsettled' x z hlt' hx hhands hz
      · -- The call that `x` shares is an operand of `x`, and its arguments have been outlined.
        obtain ⟨call, name, isAsync, args, hnode, hcall, hargs⟩ := hhands
        obtain rfl := Option.some.inj (he.symm.trans hnode)
        exact (hcontains hz).mpr (Or.inr (hops call List.mem_cons_self _ hcall rfl z hargs))
      · -- What stands behind `e` was shown before.
        have hold : shown.contains x = true := by
          rcases (hcontains hhands.isShared).mp hx with hx | hx
          · rcases contains_showing.mp hx with hx | ⟨-, rfl⟩
            · exact hx
            · exact absurd hgt (Nat.lt_irrefl e)
          · obtain ⟨y, hy, hxy⟩ := hle x hx
            have hye := hlt y hy
            exact absurd (Nat.lt_of_le_of_lt hxy hye) (Nat.lt_asymm hgt)
        exact (hcontains hz).mpr (Or.inl (hshowing z (hsettled x z hxb hold hhands hz)))
    · rcases List.mem_cons.mp hr with rfl | hr
      · rfl
      · cases n with
        | release z =>
            -- Outlining what is released enters no shared node.
            have hquiet : ∀ x ∈ (Node.release z).operands,
                a.QuietAt (showing (.release z) e shown) x := by
              intro x hx
              obtain rfl := List.mem_singleton.mp hx
              cases hz : a.isShared x with
              | true => exact Or.inl ⟨hz, hshowing x (hready x he hz)⟩
              | false => exact Or.inr ⟨hz, ha.operand he hz⟩
            obtain ⟨-, hnone⟩ := (quietCases a).of_outlineOperands hos hquiet
            rw [hnone _ r hr henters] at hshared
            cases hshared
        | _ => exact hcalm r hr henters hshared
  nil := fun _ _ hsettled _ => ⟨hsettled, by simp [Outline.referencesOf, Calm]⟩
  cons {x xs shown s shown' o os} ho hx hxs := by
    intro bound hlt hsettled hready
    obtain ⟨hs, hcalm⟩ := hx bound (hlt x List.mem_cons_self) hsettled fun z hz hshared => by
      rcases hready x List.mem_cons_self z hz hshared with hz' | ⟨y, ys, heq, hhands⟩
      · exact hz'
      · obtain ⟨rfl, -⟩ := List.cons.inj heq
        obtain ⟨_, _, _, _, hnode, -⟩ := hhands
        cases hnode.symm.trans hz
    obtain ⟨hshown, hcalm'⟩ := hxs bound (fun y hy => hlt y (List.mem_cons_of_mem _ hy)) hs
      fun r hr z hz hshared => by
        rcases hready r (List.mem_cons_of_mem _ hr) z hz hshared with hz' | ⟨y, ys, heq, hhands⟩
        · exact Or.inl ((contains_outline hshared ho).mpr (Or.inl hz'))
        · -- The call has just been outlined.
          obtain ⟨rfl, -⟩ := List.cons.inj heq
          have hcall := (contains_outline hhands.isShared ho).mpr
            (Or.inr ((memCases a).of_outline ho).1)
          exact Or.inl (hs x z (hlt x List.mem_cons_self) hcall hhands hshared)
    refine ⟨hshown, fun r hr => ?_⟩
    rcases List.mem_append.mp hr with hr | hr
    · exact hcalm r hr
    · exact hcalm' r hr

/-- In an arena that releases values behind the calls they are handed to, the outline of a node
that releases no shared value enters no shared node under a release. -/
theorem calm_outline (ha : a.ReleasesLate) {e bound : Nat} (hbound : e < bound)
    {shown shown' : Shown} {o : Outline} (h : a.outline e shown = some (o, shown'))
    (hsettled : a.Settled bound shown)
    (he : ∀ z, a.get? e = some (.release z) → a.isShared z = false) :
    a.Settled bound shown' ∧ a.Calm (o.references false) :=
  (calmCases ha).of_outline h bound hbound hsettled fun z hz hshared => by
    rw [he z hz] at hshared
    cases hshared

end Arena

end StackIR
