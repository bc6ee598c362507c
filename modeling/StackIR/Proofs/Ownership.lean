import Mathlib.Algebra.BigOperators.Intervals
import StackIR.Proofs.Emitting
import StackIR.Proofs.Visits

/-!
# Who takes over a node

Each node that lowering makes is taken over once, by a later node or by a statement, and a shared
node twice: by the node that is handed its value and by the one that uses it again. While nodes are
made, some are not taken over yet (`Arena.Owned`). The release of a literal gives up nothing, and
takes nothing over either.

A borrowing call releases the values it is handed behind the call itself
(`Arena.ReleasesBehindCall`).
-/

namespace StackIR

open Finset

namespace Arena

def isLiteral (a : Arena) (e : ExprId) : Bool :=
  (a.get? e).any Node.isLiteral

/-- The operands a node takes over from what made them. -/
def owned (a : Arena) (u : ExprId) : List ExprId :=
  match a.get? u with
  | some (.release x) => if a.isLiteral x then [] else [x]
  | some n => n.operands
  | none => []

/-- The number of places that take a node over. -/
def places (a : Arena) (e : ExprId) : Nat :=
  if a.isShared e then 2 else 1

/-- A node is a shared call that is handed the value of `z`. -/
def HandsOn (a : Arena) (x z : ExprId) : Prop :=
  ∃ call name isAsync args, a.get? x = some (.shared call) ∧
    a.get? call = some (.runtimeCall name isAsync args) ∧ z ∈ args

/-- If some operand of a node releases a shared value, the first operand is the call that was handed
the value. -/
def ReleasesBehindCall (a : Arena) (n : Node) : Prop :=
  ∀ r ∈ n.operands, ∀ z, a.get? r = some (.release z) → a.isShared z = true →
    ∃ x xs, n.operands = x :: xs ∧ a.HandsOn x z

/-- The nodes of a stretch of the arena are taken over by nodes of the stretch, as often as they
are to be, but for the `pending` ones. -/
structure Owned (c : Arena) (lo hi : Nat) (pending : List ExprId) : Prop where
  le : lo ≤ hi
  count_eq : ∀ v : Nat, ∑ u ∈ Ico lo hi, (c.owned u).count v + pending.count v =
    if lo ≤ v ∧ v < hi then c.places v else 0
  operand_le : ∀ {u : Nat} {n : Node}, lo ≤ u → u < hi → c.get? u = some n →
    ∀ x ∈ n.operands, lo ≤ x
  behind : ∀ {u : Nat} {n : Node}, lo ≤ u → u < hi → c.get? u = some n →
    c.ReleasesBehindCall n

namespace Owned

variable {c : Arena} {lo mid hi : Nat} {pending rest xs ys : List ExprId}

theorem nil (c : Arena) (lo : Nat) : Owned c lo lo [] where
  le := Nat.le_refl lo
  count_eq v := by
    rw [if_neg (by omega)]
    simp
  operand_le hlo hhi := by omega
  behind hlo hhi := by omega

theorem perm (h : Owned c lo hi xs) (hperm : xs.Perm ys) : Owned c lo hi ys :=
  { h with count_eq := fun v => hperm.count_eq v ▸ h.count_eq v }

theorem append (h : Owned c lo mid xs) (h' : Owned c mid hi ys) : Owned c lo hi (xs ++ ys) where
  le := Nat.le_trans h.le h'.le
  count_eq v := by
    have hv := h.count_eq v
    have hv' := h'.count_eq v
    rw [← sum_Ico_consecutive _ h.le h'.le, List.count_append]
    have hle := h.le
    have hle' := h'.le
    split at hv <;> split at hv' <;> split <;> omega
  operand_le {u n} hlo hhi hn x hx := by
    by_cases hu : u < mid
    · exact h.operand_le hlo hu hn x hx
    · exact Nat.le_trans h.le (h'.operand_le (Nat.le_of_not_lt hu) hhi hn x hx)
  behind {u n} hlo hhi hn := by
    by_cases hu : u < mid
    · exact h.behind hlo hu hn
    · exact h'.behind (Nat.le_of_not_lt hu) hhi hn

/-- What is pending was made in the stretch. -/
theorem of_mem (h : Owned c lo hi xs) {x : Nat} (hx : x ∈ xs) : lo ≤ x ∧ x < hi := by
  by_contra hout
  have hcount := h.count_eq x
  rw [if_neg hout] at hcount
  have hpos := List.count_pos_iff.mpr hx
  omega

/-- The next node takes over some of what is pending and is pending itself. -/
theorem next (h : Owned c lo hi xs) {n : Node} (hn : c.get? hi = some n)
    (hxs : xs.Perm (c.owned hi ++ rest)) (hops : ∀ x ∈ n.operands, x ∈ xs)
    (hbehind : c.ReleasesBehindCall n) :
    Owned c lo (hi + 1) (List.replicate (c.places hi) hi ++ rest) where
  le := Nat.le_succ_of_le h.le
  count_eq v := by
    have hle := h.le
    have hv := h.count_eq v
    rw [hxs.count_eq, List.count_append] at hv
    rw [sum_Ico_succ_top h.le, List.count_append, List.count_replicate]
    by_cases heq : hi = v
    · -- Nothing has taken over the new node yet.
      subst heq
      have hnew : lo ≤ hi ∧ hi < hi + 1 := ⟨hle, Nat.lt_succ_self hi⟩
      have hout : ¬(lo ≤ hi ∧ hi < hi) := fun hin => Nat.lt_irrefl hi hin.2
      rw [if_neg hout] at hv
      rw [if_pos hnew, if_pos (beq_self_eq_true hi)]
      omega
    · have hiff : (lo ≤ v ∧ v < hi + 1) ↔ (lo ≤ v ∧ v < hi) := by omega
      have hbeq : ¬(hi == v) = true := by simpa using heq
      rw [if_neg hbeq, if_congr hiff rfl rfl]
      omega
  operand_le {u m} hlo hhi hm x hx := by
    rcases Nat.lt_succ_iff_lt_or_eq.mp hhi with hu | rfl
    · exact h.operand_le hlo hu hm x hx
    · obtain rfl := Option.some.inj (hn.symm.trans hm)
      exact (h.of_mem (hops x hx)).1
  behind {u m} hlo hhi hm := by
    rcases Nat.lt_succ_iff_lt_or_eq.mp hhi with hu | rfl
    · exact h.behind hlo hu hm
    · obtain rfl := Option.some.inj (hn.symm.trans hm)
      exact hbehind

end Owned

/-! ## One node at a time -/

def IsRelease (a : Arena) (e : ExprId) : Prop :=
  ∃ z, a.get? e = some (.release z)

/-- A node is neither shared nor a release. -/
def IsPlain (a : Arena) (e : ExprId) : Prop :=
  ∃ n, a.get? e = some n ∧ n.isShared = false ∧ ∀ z, n ≠ .release z

section Nodes

variable {a c : Arena} {lo : Nat} {xs rest : List ExprId} {n : Node}

theorem IsPlain.not_isRelease {e : ExprId} (h : c.IsPlain e) : ¬c.IsRelease e := by
  rintro ⟨z, hz⟩
  obtain ⟨n, hn, -, hrelease⟩ := h
  exact hrelease z (Option.some.inj (hn.symm.trans hz))

theorem isPlain_add (hc : (a.add n).2.GrowsTo c) (hshared : n.isShared = false)
    (hrelease : ∀ z, n ≠ .release z) : c.IsPlain a.size :=
  ⟨n, hc.get?_size, hshared, hrelease⟩

theorem owned_of_get? {u : ExprId} (hu : c.get? u = some n) (hrelease : ∀ z, n ≠ .release z) :
    c.owned u = n.operands := by
  unfold owned
  rw [hu]
  cases n with
  | release z => exact absurd rfl (hrelease z)
  | _ => rfl

theorem owned_release {u z : ExprId} (hu : c.get? u = some (.release z)) :
    c.owned u = if c.isLiteral z then [] else [z] := by
  unfold owned
  rw [hu]

/-- Where no operand is a release, none has to stand behind a call. -/
theorem releasesBehindCall_of (hops : ∀ x ∈ n.operands, ¬c.IsRelease x) :
    c.ReleasesBehindCall n :=
  fun r hr z hz _ => absurd ⟨z, hz⟩ (hops r hr)

namespace Owned

/-- A new node that is neither shared nor a release takes over its operands. -/
theorem add (h : Owned c lo a.size xs) (hc : (a.add n).2.GrowsTo c) (hshared : n.isShared = false)
    (hrelease : ∀ z, n ≠ .release z) (hxs : xs.Perm (n.operands ++ rest))
    (hbehind : c.ReleasesBehindCall n) : Owned c lo (a.add n).2.size (a.size :: rest) := by
  have hn := hc.get?_size
  have hplaces : c.places a.size = 1 := by
    rw [places, Arena.isShared_eq hn, hshared, if_neg Bool.false_ne_true]
  have hnext := h.next hn (by rwa [owned_of_get? hn hrelease])
    (fun x hx => hxs.mem_iff.mpr (List.mem_append_left _ hx)) hbehind
  rwa [hplaces, ← size_add a n] at hnext

/-- A new shared node takes over its operand and has to be taken over twice. -/
theorem addShared {e : ExprId} (h : Owned c lo a.size (e :: rest))
    (hc : (a.add (.shared e)).2.GrowsTo c) (he : ¬c.IsRelease e) :
    Owned c lo (a.add (.shared e)).2.size (a.size :: a.size :: rest) := by
  have hn := hc.get?_size
  have hplaces : c.places a.size = 2 := by
    rw [places, Arena.isShared_eq hn]
    rfl
  have hnext := h.next hn (by rw [owned_of_get? hn (by simp)]; exact List.Perm.refl _)
    (by simp [Node.operands]) (releasesBehindCall_of (by simpa [Node.operands] using he))
  rwa [hplaces, ← size_add a (.shared e)] at hnext

/-- A new release takes over its operand, but not if that is a literal. -/
theorem addRelease {z : ExprId} (h : Owned c lo a.size xs)
    (hc : (a.add (.release z)).2.GrowsTo c) (hz : ¬c.IsRelease z) (hmem : z ∈ xs)
    (hxs : xs.Perm ((if c.isLiteral z then [] else [z]) ++ rest)) :
    Owned c lo (a.add (.release z)).2.size (a.size :: rest) := by
  have hn := hc.get?_size
  have hplaces : c.places a.size = 1 := by
    rw [places, Arena.isShared_eq hn]
    rfl
  have hnext := h.next hn (by rwa [owned_release hn]) (by simpa [Node.operands] using hmem)
    (releasesBehindCall_of (by simpa [Node.operands] using hz))
  rwa [hplaces, ← size_add a (.release z)] at hnext

end Owned

end Nodes

/-! ## Borrowing calls -/

section Borrowing

variable {a c : Arena} {lo : Nat} {rest : List ExprId}

/-- A borrowed argument is handed on, and its release is made for later. -/
theorem Owned.borrowArgument {e : ExprId} (h : Owned c lo a.size (e :: rest)) (he : c.IsPlain e)
    (hc : ((a.share e).2.add (.release (a.share e).1)).2.GrowsTo c) :
    Owned c lo ((a.share e).2.add (.release (a.share e).1)).2.size
        ((a.share e).1 :: (a.share e).2.size :: rest) ∧
      ¬c.IsRelease (a.share e).1 := by
  have hae : c.get? e = a.get? e :=
    ((growsTo_share a e).trans ((growsTo_add _ _).trans hc)).get?_eq (h.of_mem List.mem_cons_self).2
  obtain ⟨n, hn, hshared, hrelease⟩ := he
  have hreusable : a.isReusable e = n.isLiteral := by
    simp [isReusable, ← hae, hn, hshared]
  cases hliteral : n.isLiteral with
  | true =>
      rw [share_of_reusable (hreusable.trans hliteral)] at hc ⊢
      have he : ¬c.IsRelease e := IsPlain.not_isRelease ⟨n, hn, hshared, hrelease⟩
      have hlit : c.isLiteral e = true := by simpa [isLiteral, hn] using hliteral
      refine ⟨?_, he⟩
      exact (h.addRelease hc he List.mem_cons_self (by rw [if_pos hlit, List.nil_append])).perm
        (List.Perm.swap _ _ _)
  | false =>
      rw [share_of_not_reusable (hreusable.trans hliteral)] at hc ⊢
      have hc' := (growsTo_add _ _).trans hc
      have hz := hc'.get?_size
      have hnot : ¬c.IsRelease a.size := by
        rintro ⟨z, hz'⟩
        cases hz.symm.trans hz'
      have hlit : c.isLiteral a.size = false := by
        rw [isLiteral, hz]
        rfl
      refine ⟨?_, hnot⟩
      refine (((h.addShared hc' (IsPlain.not_isRelease ⟨n, hn, hshared, hrelease⟩)).addRelease hc
        hnot List.mem_cons_self ?_).perm (List.Perm.swap _ _ _))
      rw [hlit, if_neg Bool.false_ne_true]
      exact List.Perm.refl _

/-- Borrowing arguments leaves pending what is handed to the call and the releases, each over an
argument of the call. -/
theorem Owned.borrow (mask : BitVec 32) {es : List ExprId} :
    ∀ {a : Arena} {i : Nat} {rest : List ExprId}, Owned c lo a.size (es ++ rest) →
      (∀ e ∈ es, c.IsPlain e) → (a.borrow mask i es).2.GrowsTo c →
      Owned c lo (a.borrow mask i es).2.size
          ((a.borrow mask i es).1.args ++ (a.borrow mask i es).1.releases ++ rest) ∧
        (∀ x ∈ (a.borrow mask i es).1.args, ¬c.IsRelease x) ∧
        ∀ r ∈ (a.borrow mask i es).1.releases,
          ∃ z ∈ (a.borrow mask i es).1.args, c.get? r = some (.release z) := by
  induction es with
  | nil =>
      intro a i rest h _ _
      exact ⟨h, by simp [borrow_nil], by simp [borrow_nil]⟩
  | cons e es ih =>
      intro a i rest h hes hc
      have he := hes e List.mem_cons_self
      have hes := fun x hx => hes x (List.mem_cons_of_mem e hx)
      cases hbit : mask.getLsbD i with
      | false =>
          rw [borrow_cons_of_not_bit hbit] at hc ⊢
          -- The argument itself stays pending, and is handed to the call.
          obtain ⟨howned, hargs, hreleases⟩ :=
            ih (h.perm List.perm_middle.symm) hes hc
          refine ⟨howned.perm List.perm_middle, fun x hx => ?_, fun r hr => ?_⟩
          · rcases List.mem_cons.mp hx with rfl | hx
            · exact he.not_isRelease
            · exact hargs x hx
          · obtain ⟨z, hz, hr⟩ := hreleases r hr
            exact ⟨z, List.mem_cons_of_mem _ hz, hr⟩
      | true =>
          rw [borrow_cons_of_bit hbit] at hc ⊢
          dsimp only at hc ⊢
          have hc' := (growsTo_borrow mask es _ (i + 1)).trans hc
          obtain ⟨hargument, hz⟩ := h.borrowArgument he hc'
          obtain ⟨howned, hargs, hreleases⟩ := ih
            (hargument.perm (List.perm_append_comm_assoc [_, _] es rest)) hes hc
          refine ⟨howned.perm ?_, fun x hx => ?_, fun r hr => ?_⟩
          · refine List.perm_iff_count.mpr fun x => ?_
            simp only [List.count_append, List.count_cons, List.cons_append, List.nil_append,
              add_fst]
            omega
          · rcases List.mem_cons.mp hx with rfl | hx
            · exact hz
            · exact hargs x hx
          · rcases List.mem_cons.mp hr with rfl | hr
            · exact ⟨_, List.mem_cons_self, hc'.get?_size⟩
            · obtain ⟨z, hz, hr⟩ := hreleases r hr
              exact ⟨z, List.mem_cons_of_mem _ hz, hr⟩

end Borrowing

/-! ## What is made of lowered expressions -/

/-- The nodes of a stretch of the arena leave only plain ones to be taken over. -/
structure Makes (c : Arena) (lo hi : Nat) (xs : List ExprId) : Prop where
  owned : Owned c lo hi xs
  isPlain : ∀ x ∈ xs, c.IsPlain x

namespace Makes

variable {a c : Arena} {lo mid hi : Nat} {xs ys : List ExprId} {n : Node}

theorem nil (c : Arena) (lo : Nat) : Makes c lo lo [] :=
  ⟨Owned.nil c lo, by simp⟩

theorem append (h : Makes c lo mid xs) (h' : Makes c mid hi ys) : Makes c lo hi (xs ++ ys) :=
  ⟨h.owned.append h'.owned, fun x hx => (List.mem_append.mp hx).elim (h.isPlain x) (h'.isPlain x)⟩

theorem add (h : Makes c lo a.size xs) (hc : (a.add n).2.GrowsTo c) (hshared : n.isShared = false)
    (hrelease : ∀ z, n ≠ .release z) (hxs : xs.Perm n.operands) :
    Makes c lo (a.add n).2.size [a.size] where
  owned := h.owned.add hc hshared hrelease (by rwa [List.append_nil])
    (releasesBehindCall_of fun x hx => (h.isPlain x (hxs.mem_iff.mpr hx)).not_isRelease)
  isPlain x hx := by
    rw [List.mem_singleton.mp hx]
    exact isPlain_add hc hshared hrelease

/-- A node without operands takes over nothing. -/
theorem leaf (hc : (a.add n).2.GrowsTo c) (hshared : n.isShared = false)
    (hrelease : ∀ z, n ≠ .release z) (hops : n.operands = []) :
    Makes c a.size (a.add n).2.size [a.size] :=
  (nil c a.size).add hc hshared hrelease (by rw [hops])

/-- A borrowing call takes over its arguments, and nothing is left but the node of its value. -/
theorem borrowCall {name : String} {mask : BitVec 32} {isAsync : Bool} {args : List ExprId}
    (h : Makes c lo a.size args) (hc : (a.borrowCall name mask isAsync args).2.GrowsTo c) :
    Makes c lo (a.borrowCall name mask isAsync args).2.size
      [(a.borrowCall name mask isAsync args).1] := by
  have hcalled := (called_growsTo_borrowCall a name mask isAsync args).trans hc
  have hpending : Owned c lo a.size (args ++ []) := h.owned.perm (by rw [List.append_nil])
  obtain ⟨howned, hplain, hreleases⟩ := Owned.borrow mask (i := 0) hpending h.isPlain
    ((growsTo_add _ _).trans hcalled)
  rw [List.append_nil] at howned
  have hcall := howned.add hcalled rfl (by simp) (List.Perm.refl _)
    (releasesBehindCall_of hplain)
  cases hempty : (a.borrow mask 0 args).1.releases.isEmpty with
  | true =>
      rw [borrowCall_of_isEmpty hempty] at hc ⊢
      rw [List.isEmpty_iff.mp hempty] at hcall
      exact ⟨hcall, by simpa using isPlain_add hc rfl (by simp)⟩
  | false =>
      rw [borrowCall_of_not_isEmpty hempty] at hc ⊢
      dsimp only at hc ⊢
      have hshared := (growsTo_add _ _).trans hc
      have hnot := (isPlain_add hcalled rfl (by simp)).not_isRelease
      have hcall' := hcall.addShared hshared hnot
      have hnode := hshared.get?_size
      have hsize := size_add (a.borrow mask 0 args).2
        (.runtimeCall name isAsync (a.borrow mask 0 args).1.args)
      rw [hsize] at hcall' hnode
      refine ⟨hcall'.add hc rfl (by simp) ?_ fun r hr z hz _ => ?_,
        by simpa using isPlain_add hc rfl (by simp)⟩
      · refine List.perm_iff_count.mpr fun x => ?_
        simp only [Node.operands, List.count_append, List.count_cons, List.count_nil]
        omega
      · -- A release among the items is over what the shared call is handed.
        refine ⟨_, _, rfl, _, name, isAsync, _, hnode, hcalled.get?_size, ?_⟩
        simp only [Node.operands, List.cons_append, List.mem_cons, List.mem_append,
          List.not_mem_nil, or_false] at hr
        rcases hr with rfl | hr | rfl
        · cases hnode.symm.trans hz
        · obtain ⟨z', hz', hr⟩ := hreleases r hr
          obtain rfl : z = z' := by simpa using hz.symm.trans hr
          exact hz'
        · cases hnode.symm.trans hz

end Makes

end Arena

namespace Cell

open Arena

variable {a c : Arena} {lo : Nat}

theorem makes_load (d : Cell) (hc : (d.load a).2.GrowsTo c) :
    Makes c a.size (d.load a).2.size [(d.load a).1] := by
  unfold load slot at hc ⊢
  cases hboxed : d.isBoxed <;> cases hcounted : d.refCounted <;>
    simp only [hboxed, hcounted, if_true, if_false, Bool.false_eq_true] at hc ⊢
  · exact Makes.leaf hc rfl (by simp) rfl
  · have hslot := (growsTo_add _ _).trans hc
    exact (Makes.leaf hslot rfl (by simp) rfl).add hc rfl (by simp) (List.Perm.refl _)
  · have hslot := (growsTo_add _ _).trans hc
    exact (Makes.leaf hslot rfl (by simp) rfl).add hc rfl (by simp) (List.Perm.refl _)
  · have hcall := (growsTo_add _ _).trans hc
    have hslot := (growsTo_add _ _).trans hcall
    exact ((Makes.leaf hslot rfl (by simp) rfl).add hcall rfl (by simp) (List.Perm.refl _)).add hc
      rfl (by simp) (List.Perm.refl _)

/-- A write of a cell takes over the value and the slot. -/
theorem makes_over_slot (d : Cell) {x : ExprId} {n : Node} (h : Makes c lo a.size [x])
    (hc : ((a.add (.cell d)).2.add n).2.GrowsTo c) (hshared : n.isShared = false)
    (hrelease : ∀ z, n ≠ .release z) (hops : n.operands = [a.size, x]) :
    Makes c lo ((a.add (.cell d)).2.add n).2.size [(a.add (.cell d)).2.size] := by
  have hslot := (growsTo_add _ _).trans hc
  refine (h.append (Makes.leaf hslot rfl (by simp) rfl)).add hc hshared hrelease ?_
  rw [hops]
  exact List.Perm.swap _ _ _

theorem makes_storeSlot (d : Cell) {x : ExprId} (h : Makes c lo a.size [x])
    (hc : (d.storeSlot x a).2.GrowsTo c) :
    Makes c lo (d.storeSlot x a).2.size [(d.storeSlot x a).1] :=
  d.makes_over_slot h hc rfl (by simp) rfl

theorem makes_assign (d : Cell) {x : ExprId} (h : Makes c lo a.size [x])
    (hc : (d.assign x a).2.GrowsTo c) :
    Makes c lo (d.assign x a).2.size [(d.assign x a).1] := by
  unfold assign at hc ⊢
  cases hboxed : d.isBoxed with
  | true =>
      rw [hboxed] at hc
      exact d.makes_over_slot h hc rfl (by simp) rfl
  | false =>
      rw [hboxed] at hc
      exact d.makes_storeSlot h hc

end Cell

namespace Script

open Arena

private theorem makesCases (cells : CellTable) :
    LoweringCases cells (fun _ a x b => ∀ c, b.GrowsTo c → Makes c a.size b.size [x])
      (fun _ a xs b => ∀ c, b.GrowsTo c → Makes c a.size b.size xs) where
  leaf {e n a} he c hc := by
    cases e with
    | num value | bool value | pointer label info | jumpValue =>
        obtain rfl := Option.some.inj he
        exact Makes.leaf hc rfl (by simp) rfl
    | _ => cases he
  load _ c hc := Cell.makes_load _ hc
  call _ ih c hc := (ih c ((appends_borrowCall _ _ _ _ _).growsTo.trans hc)).borrowCall hc
  procCall _ ih c hc :=
    (ih c ((growsTo_add _ _).trans hc)).add hc rfl (by simp) (List.Perm.refl _)
  field _ ih c hc := (ih c ((growsTo_add _ _).trans hc)).add hc rfl (by simp) (List.Perm.refl _)
  sequence _ ih c hc :=
    (ih c ((growsTo_add _ _).trans hc)).add hc rfl (by simp) (List.Perm.refl _)
  nil {a} c _ := Makes.nil c a.size
  cons _ hes ih ihs c hc := (ih c ((appends_lowerExprs hes).growsTo.trans hc)).append (ihs c hc)

theorem makes_of_lowerExpr {cells : CellTable} {e : Expr} {a b c : Arena} {x : ExprId}
    (h : lowerExpr cells e a = .ok (x, b)) (hc : b.GrowsTo c) : Makes c a.size b.size [x] :=
  (makesCases cells).of_lowerExpr h c hc

/-! ## Bodies -/

/-- The statements of a body take over the nodes of an arena up to a position, each those of a
stretch of its own. None evaluates the release of a shared value. -/
inductive Stretches (c : Arena) : List StackIR.Stmt → Nat → Prop where
  | nil : Stretches c [] 0
  | concat {ss : List StackIR.Stmt} {st : StackIR.Stmt} {mid hi : Nat} (h : Stretches c ss mid)
      (howned : Owned c mid hi st.expr?.toList)
      (hroot : ∀ e z, st.expr? = some e → c.get? e = some (.release z) → c.isShared z = false) :
      Stretches c (ss ++ [st]) hi

section Statements

variable {c : Arena} {s : Script} {cells : CellTable}

theorem Stretches.makes {ss : List StackIR.Stmt} {st : StackIR.Stmt} {mid hi : Nat}
    (h : Stretches c ss mid) (hmakes : Makes c mid hi st.expr?.toList) :
    Stretches c (ss ++ [st]) hi := by
  refine h.concat hmakes.owned fun e z he hz => ?_
  exact absurd ⟨z, hz⟩ (hmakes.isPlain e (by simp [he])).not_isRelease

theorem Evaluates.makes {st : Stmt} {a b : Arena} {x : ExprId} (h : Evaluates cells st a x b)
    (hc : b.GrowsTo c) : Makes c a.size b.size [x] := by
  cases h with
  | expr h => exact makes_of_lowerExpr h hc
  | @init _ _ d _ b x _ h =>
      exact d.makes_storeSlot (makes_of_lowerExpr h ((d.appends_storeSlot x b).growsTo.trans hc)) hc
  | @assign _ _ d _ b x _ h =>
      exact d.makes_assign (makes_of_lowerExpr h ((d.appends_assign x b).growsTo.trans hc)) hc

theorem Carries.makes {value : Option Expr} {a b : Arena} {x : Option ExprId}
    (h : Carries cells value a x b) (hc : b.GrowsTo c) : Makes c a.size b.size x.toList := by
  cases h with
  | nothing => exact Makes.nil c a.size
  | value h => exact makes_of_lowerExpr h hc

/-- A cell that is given up has a statement of its own, the release of its slot. -/
theorem Stretches.release {p : Procedure} {d : Cell}
    (h : Stretches c p.body.toList p.arena.size) (hc : (p.release d).arena.GrowsTo c) :
    Stretches c (p.release d).body.toList (p.release d).arena.size := by
  have hc : ((p.arena.add (.cell d)).2.add (.release p.arena.size)).2.GrowsTo c := hc
  have hslot := (growsTo_add _ _).trans hc
  have hnode := hslot.get?_size
  have hmakes := Makes.leaf hslot rfl (by simp) rfl
  have hliteral : c.isLiteral p.arena.size = false := by
    rw [isLiteral, hnode]
    rfl
  have howned : Owned c p.arena.size _ [(p.arena.add (.cell d)).2.size] :=
    hmakes.owned.addRelease hc (hmakes.isPlain _ List.mem_cons_self).not_isRelease
      List.mem_cons_self (by rw [hliteral, if_neg Bool.false_ne_true, List.append_nil])
  have hbody : (p.release d).body.toList = p.body.toList ++ [.expr (p.arena.size + 1)] :=
    Array.toList_push
  rw [size_add p.arena] at howned
  rw [hbody]
  refine h.concat howned fun e z he hz => ?_
  obtain rfl := Option.some.inj he
  have hrelease := hc.get?_size
  rw [size_add p.arena] at hrelease
  obtain rfl : p.arena.size = z := by simpa using hrelease.symm.trans hz
  rw [isShared_eq hnode]
  rfl

theorem Stretches.releases {cs : List Cell} : ∀ {p : Procedure},
    Stretches c p.body.toList p.arena.size → (cs.foldl Procedure.release p).arena.GrowsTo c →
      Stretches c (cs.foldl Procedure.release p).body.toList
        (cs.foldl Procedure.release p).arena.size := by
  induction cs with
  | nil => exact fun h _ => h
  | cons d cs ih =>
      intro p h hc
      have hgrows := (Procedure.buildsTo_foldl_release cs (p.release d)).growsTo.1
      exact ih (h.release (hgrows.trans hc)) hc

/-- A new statement takes over what was made since the last one. -/
theorem Stretches.emit {m : Emission} {st : StackIR.Stmt} {mid : Nat}
    (h : Stretches c m.procedure.body.toList mid)
    (hmakes : Makes c mid m.procedure.arena.size st.expr?.toList) :
    Stretches c (m.emit st).procedure.body.toList (m.emit st).procedure.arena.size := by
  have hbody : (m.emit st).procedure.body.toList = m.procedure.body.toList ++ [st] :=
    Array.toList_push
  rw [hbody]
  exact h.makes hmakes

theorem Emits.stretches {m m' : Emission} {st : Stmt} (h : Emits s cells m st m')
    (hc : m'.procedure.arena.GrowsTo c)
    (hm : Stretches c m.procedure.body.toList m.procedure.arena.size) :
    Stretches c m'.procedure.body.toList m'.procedure.arena.size := by
  cases h with
  | evaluate h => exact Stretches.emit (m := m.withArena _) hm (h.makes hc)
  | label name =>
      have hprocedure := m.label_procedure name
      have hlabel : Stretches c (m.label name).2.procedure.body.toList m.procedure.arena.size := by
        rwa [hprocedure]
      refine hlabel.emit ?_
      rw [hprocedure]
      exact Makes.nil c _
  | @jump target mode value x b h =>
      refine Stretches.emit (m := (m.label target).2.withArena b) ?_ (h.makes hc)
      show Stretches c (m.label target).2.procedure.body.toList m.procedure.arena.size
      rwa [m.label_procedure target]
  | stackEmpty => exact Stretches.emit hm (Makes.nil c _)
  | exit _ _ => exact hm.releases hc

theorem Emitted.stretches {m m' : Emission} {ss : List Stmt} (h : Emitted s cells m ss m') :
    m'.procedure.arena.GrowsTo c → Stretches c m.procedure.body.toList m.procedure.arena.size →
      Stretches c m'.procedure.body.toList m'.procedure.arena.size := by
  induction h with
  | nil => exact fun _ hm => hm
  | concat _ hstep ih =>
      exact fun hc hm => hstep.stretches hc (ih (hstep.buildsTo.growsTo.1.trans hc) hm)

end Statements

/-- The statements of a lowered procedure take over the whole arena. -/
theorem stretches_of_lower {s : Script} {p : Procedure} (h : s.lower = .ok p) :
    Stretches p.arena p.body.toList p.arena.size := by
  obtain ⟨d, m, hd, hrun, rfl⟩ := emitted_of_lower h
  refine hrun.stretches (GrowsTo.refl _) ?_
  rw [(declares_of_declared hd).procedure_eq]
  exact .nil

end Script

end StackIR
