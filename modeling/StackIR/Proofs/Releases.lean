import StackIR.Proofs.Lowering

/-!
# The nodes of a borrowing call

A borrowing call makes a release for each of its masked arguments, and nothing else that retains or
releases (`Arena.exists_releases_borrow`). The argument is handed to the call and to its release as
the same node, which is the argument itself or a shared node over it (`Arena.Borrows`).
-/

namespace StackIR

namespace Arena

/-- How a call is handed an argument that it only borrows: as it is if it is a literal, else through
a shared node. -/
def Borrows (a : Arena) (z x : ExprId) : Prop :=
  (z = x ∧ ∃ n, a.get? x = some n ∧ n.isLiteral = true) ∨ a.get? z = some (.shared x)

/-- A node is a call with the given number of arguments. Those that are masked are borrowed, and
each has its release. -/
def IsBorrowingCall (a : Arena) (call : ExprId) (name : String) (mask : BitVec 32)
    (isAsync : Bool) (count : Nat) (operand release : Nat → ExprId) : Prop :=
  ∃ ids, a.get? call = some (.runtimeCall name isAsync ids) ∧ ids.length = count ∧
    ∀ i, i < count → ∃ z, ids[i]? = some z ∧
      if mask.getLsbD i = true then
        a.get? (release i) = some (.release z) ∧ a.Borrows z (operand i)
      else z = operand i

/-- The value of a node is that of a call: the node is the call itself, or evaluates it through a
shared node first and last. -/
def YieldsCall (a : Arena) (x call : ExprId) : Prop :=
  x = call ∨ ∃ (z : ExprId) (releases : List ExprId),
    a.get? x = some (.sequence (z :: releases ++ [z])) ∧ a.get? z = some (.shared call)

def IsQuiet (a : Arena) (k : Nat) : Prop :=
  ∀ x : ExprId, a.get? k ≠ some (.retain x) ∧ a.get? k ≠ some (.release x)

/-- No node of a stretch of the arena retains or releases. -/
def CountsNothing (a : Arena) (lo hi : Nat) : Prop :=
  ∀ k, lo ≤ k → k < hi → a.IsQuiet k

theorem countsNothing_refl (a : Arena) (lo : Nat) : a.CountsNothing lo lo := by
  intro k hlo hhi
  omega

theorem CountsNothing.append {a : Arena} {lo mid hi : Nat} (h : a.CountsNothing lo mid)
    (h' : a.CountsNothing mid hi) : a.CountsNothing lo hi := by
  intro k hlo hhi
  by_cases hk : k < mid
  · exact h k hlo hk
  · exact h' k (by omega) hhi

theorem countsNothing_add {a b : Arena} {n : Node} (hb : (a.add n).2.GrowsTo b)
    (hretain : ∀ x, n ≠ .retain x) (hrelease : ∀ x, n ≠ .release x) :
    b.CountsNothing a.size (a.add n).2.size := by
  intro k hlo hhi x
  rw [size_add] at hhi
  obtain rfl : k = a.size := by omega
  rw [hb.get?_size]
  exact ⟨by simpa using hretain x, by simpa using hrelease x⟩

theorem borrows_share {a b : Arena} {e : ExprId} (he : a.isShared e = false)
    (hb : (a.share e).2.GrowsTo b) : b.Borrows (a.share e).1 e := by
  cases hreuse : a.isReusable e with
  | true =>
      rw [share_of_reusable hreuse] at hb ⊢
      cases hn : a.get? e with
      | none => simp [isReusable, hn] at hreuse
      | some n =>
          rw [isShared_eq hn] at he
          simp only [isReusable, hn, Option.any_some, he, Bool.or_false] at hreuse
          exact Or.inl ⟨rfl, n, hb.get?_of_some hn, hreuse⟩
  | false =>
      rw [share_of_not_reusable hreuse] at hb ⊢
      exact Or.inr hb.get?_size

/-- An argument handed on as a node is told by the node. -/
theorem Borrows.unique {a : Arena} {z x y : ExprId} (hx : a.Borrows z x) (hy : a.Borrows z y) :
    x = y := by
  rcases hx with ⟨rfl, n, hn, hliteral⟩ | hx
  · rcases hy with ⟨rfl, -⟩ | hy
    · rfl
    · obtain rfl := Option.some.inj (hn.symm.trans hy)
      cases hliteral
  · rcases hy with ⟨rfl, n, hn, hliteral⟩ | hy
    · obtain rfl := Option.some.inj (hn.symm.trans hx)
      cases hliteral
    · simpa using hx.symm.trans hy

theorem not_borrows_cell {a : Arena} {z x : ExprId} {c : Cell} (hz : a.get? z = some (.cell c)) :
    ¬ a.Borrows z x := by
  rintro (⟨rfl, n, hn, hliteral⟩ | hx)
  · obtain rfl := Option.some.inj (hn.symm.trans hz)
    cases hliteral
  · rw [hz] at hx
    cases hx

theorem countsNothing_share {a b : Arena} {e : ExprId} (hb : (a.share e).2.GrowsTo b) :
    b.CountsNothing a.size (a.share e).2.size := by
  cases hreuse : a.isReusable e with
  | true =>
      rw [share_of_reusable hreuse]
      exact countsNothing_refl b a.size
  | false =>
      rw [share_of_not_reusable hreuse] at hb ⊢
      exact countsNothing_add hb (by simp) (by simp)

/-- What borrowing the arguments `es` makes in a stretch of the arena, the first being at position
`i` of the call: the nodes `args` to hand on, and a release for each argument that is masked.
Nothing else retains or releases. -/
structure BorrowsAll (b : Arena) (mask : BitVec 32) (i : Nat) (es args : List ExprId) (lo hi : Nat)
    (release : Nat → ExprId) : Prop where
  length_eq : args.length = es.length
  arg : ∀ (j : Nat) (e : ExprId), es[j]? = some e → ∃ z, args[j]? = some z ∧
    if mask.getLsbD (i + j) = true then b.get? (release j) = some (.release z) ∧ b.Borrows z e
    else z = e
  counts : ∀ k x : Nat, lo ≤ k → k < hi → b.get? k ≠ some (.retain x) ∧
    (b.get? k = some (.release x) →
      ∃ j, j < es.length ∧ mask.getLsbD (i + j) = true ∧ release j = k)

namespace BorrowsAll

variable {b : Arena} {mask : BitVec 32} {i : Nat} {e : ExprId} {es args : List ExprId}
  {lo hi : Nat} {release : Nat → ExprId}

theorem nil : BorrowsAll b mask i [] [] lo lo fun _ => 0 where
  length_eq := rfl
  arg := by simp
  counts k x hlo hhi := absurd hhi (Nat.not_lt.mpr hlo)

/-- An argument that is not masked is handed on as it is. -/
theorem cons_owned (h : BorrowsAll b mask (i + 1) es args lo hi release)
    (hbit : mask.getLsbD i = false) :
    BorrowsAll b mask i (e :: es) (e :: args) lo hi fun j => release (j - 1) where
  length_eq := by simp [h.length_eq]
  arg j x hj := by
    cases j with
    | zero =>
        obtain rfl : e = x := by simpa using hj
        exact ⟨e, rfl, by simp [hbit]⟩
    | succ j =>
        rw [show i + (j + 1) = i + 1 + j by omega]
        exact h.arg j x hj
  counts k x hlo hhi := by
    obtain ⟨hretain, hrelease⟩ := h.counts k x hlo hhi
    refine ⟨hretain, fun hk => ?_⟩
    obtain ⟨j, hj, hbit', rfl⟩ := hrelease hk
    exact ⟨j + 1, Nat.succ_lt_succ hj, by rwa [show i + (j + 1) = i + 1 + j by omega], rfl⟩

/-- A masked argument is handed on as `z`, whose release stands at `r`. -/
theorem cons_borrowed {r : Nat} {z : ExprId}
    (h : BorrowsAll b mask (i + 1) es args (r + 1) hi release) (hbit : mask.getLsbD i = true)
    (hquiet : b.CountsNothing lo r) (hr : b.get? r = some (.release z)) (hz : b.Borrows z e) :
    BorrowsAll b mask i (e :: es) (z :: args) lo hi
      fun j => if j = 0 then r else release (j - 1) where
  length_eq := by simp [h.length_eq]
  arg j x hj := by
    cases j with
    | zero =>
        obtain rfl : e = x := by simpa using hj
        refine ⟨z, rfl, ?_⟩
        rw [Nat.add_zero, if_pos hbit, if_pos rfl]
        exact ⟨hr, hz⟩
    | succ j =>
        rw [show i + (j + 1) = i + 1 + j by omega, if_neg (Nat.succ_ne_zero j),
          Nat.add_sub_cancel]
        exact h.arg j x hj
  counts k x hlo hhi := by
    rcases Nat.lt_trichotomy k r with hlt | rfl | hgt
    · obtain ⟨hretain, hrelease⟩ := hquiet k hlo hlt x
      exact ⟨hretain, fun hk => absurd hk hrelease⟩
    · rw [hr]
      exact ⟨by simp, fun _ => ⟨0, Nat.succ_pos _, hbit, if_pos rfl⟩⟩
    · obtain ⟨hretain, hrelease⟩ := h.counts k x hgt hhi
      refine ⟨hretain, fun hk => ?_⟩
      obtain ⟨j, hj, hbit', rfl⟩ := hrelease hk
      exact ⟨j + 1, Nat.succ_lt_succ hj, by rwa [show i + (j + 1) = i + 1 + j by omega],
        if_neg (Nat.succ_ne_zero j)⟩

end BorrowsAll

theorem exists_releases_borrow (mask : BitVec 32) {es : List ExprId} :
    ∀ {a b : Arena} {i : Nat}, (∀ e ∈ es, e < a.size ∧ a.isShared e = false) →
      (a.borrow mask i es).2.GrowsTo b → ∃ release, BorrowsAll b mask i es
        (a.borrow mask i es).1.args a.size (a.borrow mask i es).2.size release := by
  induction es with
  | nil => exact fun _ _ => ⟨_, .nil⟩
  | cons e es ih =>
      intro a b i hes hb
      obtain ⟨he, hshared⟩ := hes e List.mem_cons_self
      have hrest : ∀ x ∈ es, x < a.size ∧ a.isShared x = false := fun x hx =>
        hes x (List.mem_cons_of_mem _ hx)
      cases hbit : mask.getLsbD i with
      | false =>
          rw [borrow_cons_of_not_bit hbit] at hb ⊢
          obtain ⟨release, hreleases⟩ := ih hrest hb
          exact ⟨_, hreleases.cons_owned hbit⟩
      | true =>
          rw [borrow_cons_of_bit hbit] at hb ⊢
          have hadd := growsTo_add (a.share e).2 (.release (a.share e).1)
          have hgrown := (growsTo_share a e).trans hadd
          have hb' := (growsTo_borrow mask es _ (i + 1)).trans hb
          -- The other arguments are still there, and not shared, behind the release of this one.
          obtain ⟨release, hreleases⟩ := ih (fun x hx =>
            ⟨Nat.lt_of_lt_of_le (hrest x hx).1 hgrown.size_le, by
              rw [hgrown.isShared_eq (hrest x hx).1]
              exact (hrest x hx).2⟩) hb
          rw [size_add] at hreleases
          exact ⟨_, hreleases.cons_borrowed hbit (countsNothing_share (hadd.trans hb'))
            hb'.get?_size (borrows_share hshared (hadd.trans hb'))⟩

/-- Behind what borrowing makes stands the call, and nothing that retains or releases. -/
theorem exists_borrowCall {a b : Arena} {name : String} {mask : BitVec 32} {isAsync : Bool}
    {args : List ExprId} (hb : (a.borrowCall name mask isAsync args).2.GrowsTo b) :
    b.get? (a.borrow mask 0 args).2.size =
        some (.runtimeCall name isAsync (a.borrow mask 0 args).1.args) ∧
      (a.borrow mask 0 args).2.size < (a.borrowCall name mask isAsync args).2.size ∧
      b.isShared (a.borrowCall name mask isAsync args).1 = false ∧
      b.YieldsCall (a.borrowCall name mask isAsync args).1 (a.borrow mask 0 args).2.size ∧
      b.CountsNothing (a.borrow mask 0 args).2.size
        (a.borrowCall name mask isAsync args).2.size := by
  have hcall := called_growsTo_borrowCall a name mask isAsync args
  refine ⟨(hcall.trans hb).get?_size,
    Nat.lt_of_lt_of_le (appends_add _ _).lt_size hcall.size_le, ?_⟩
  cases h : (a.borrow mask 0 args).1.releases.isEmpty with
  | true =>
      rw [borrowCall_of_isEmpty h] at hb ⊢
      rw [add_fst, isShared_eq hb.get?_size]
      exact ⟨rfl, Or.inl rfl, countsNothing_add hb (by simp) (by simp)⟩
  | false =>
      rw [borrowCall_of_not_isEmpty h] at hb ⊢
      dsimp only at hb ⊢
      have hshared := (growsTo_add _ _).trans hb
      rw [add_fst, isShared_eq hb.get?_size]
      refine ⟨rfl, Or.inr ⟨_, _, hb.get?_size, ?_⟩, ?_⟩
      · rw [← size_add _ (.runtimeCall name isAsync (a.borrow mask 0 args).1.args)]
        exact hshared.get?_size
      · exact ((countsNothing_add ((growsTo_add _ _).trans hshared) (by simp) (by simp)).append
          (countsNothing_add hshared (by simp) (by simp))).append
            (countsNothing_add hb (by simp) (by simp))

end Arena

/-! ## Access to cells -/

namespace Cell

open Arena

/-- Reading a cell makes one node that retains, the last, if the cell is counted, else none. -/
theorem load_counts {c : Cell} {a b : Arena} (hb : (c.load a).2.GrowsTo b) :
    b.CountsNothing a.size (c.load a).1 ∧ b.isShared (c.load a).1 = false ∧
      if c.refCounted then ∃ x, b.get? (c.load a).1 = some (.retain x)
      else b.IsQuiet (c.load a).1 := by
  unfold load slot at hb ⊢
  cases hboxed : c.isBoxed <;> cases hcounted : c.refCounted <;>
    simp only [hboxed, hcounted, if_true, if_false, Bool.false_eq_true, add_fst] at hb ⊢
  · rw [isShared_eq hb.get?_size]
    refine ⟨countsNothing_refl b _, rfl, fun x => ?_⟩
    rw [hb.get?_size]
    exact ⟨by simp, by simp⟩
  · rw [isShared_eq hb.get?_size]
    have hslot := (growsTo_add _ _).trans hb
    exact ⟨countsNothing_add hslot (by simp) (by simp), rfl, _, hb.get?_size⟩
  · rw [isShared_eq hb.get?_size]
    have hslot := (growsTo_add _ _).trans hb
    refine ⟨countsNothing_add hslot (by simp) (by simp), rfl, fun x => ?_⟩
    rw [hb.get?_size]
    exact ⟨by simp, by simp⟩
  · rw [isShared_eq hb.get?_size]
    have hcall := (growsTo_add _ _).trans hb
    have hslot := (growsTo_add _ _).trans hcall
    exact ⟨(countsNothing_add hslot (by simp) (by simp)).append
      (countsNothing_add hcall (by simp) (by simp)), rfl, _, hb.get?_size⟩

theorem countsNothing_storeSlot {c : Cell} {value : ExprId} {a b : Arena}
    (hb : (c.storeSlot value a).2.GrowsTo b) :
    b.CountsNothing a.size (c.storeSlot value a).2.size := by
  unfold storeSlot slot at hb ⊢
  exact (countsNothing_add ((growsTo_add _ _).trans hb) (by simp) (by simp)).append
    (countsNothing_add hb (by simp) (by simp))

theorem countsNothing_assign {c : Cell} {value : ExprId} {a b : Arena}
    (hb : (c.assign value a).2.GrowsTo b) :
    b.CountsNothing a.size (c.assign value a).2.size := by
  unfold assign at hb ⊢
  cases hboxed : c.isBoxed with
  | false =>
      rw [hboxed] at hb
      exact countsNothing_storeSlot hb
  | true =>
      rw [hboxed] at hb
      unfold slot at hb ⊢
      exact (countsNothing_add ((growsTo_add _ _).trans hb) (by simp) (by simp)).append
        (countsNothing_add hb (by simp) (by simp))

end Cell

end StackIR
