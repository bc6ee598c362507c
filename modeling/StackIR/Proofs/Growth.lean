import Mathlib.Data.List.Infix
import StackIR.Script.Lower

/-!
# Arenas only grow

Everything that makes expressions appends nodes and leaves the ones that are there alone
(`Arena.GrowsTo`), and whatever makes one expression returns the last node it appended
(`Arena.Appends`). What is known of a node of an arena is then known of it in every later arena
(`GrowsTo.get?_eq`).
-/

namespace StackIR

namespace Arena

/-- The later arena starts with the nodes of the earlier one. -/
def GrowsTo (a b : Arena) : Prop :=
  a.nodes.toList <+: b.nodes.toList

theorem GrowsTo.refl (a : Arena) : a.GrowsTo a :=
  List.prefix_refl _

theorem GrowsTo.trans {a b c : Arena} (hab : a.GrowsTo b) (hbc : b.GrowsTo c) : a.GrowsTo c :=
  List.IsPrefix.trans hab hbc

theorem GrowsTo.size_le {a b : Arena} (h : a.GrowsTo b) : a.size ≤ b.size := by
  simpa [size] using List.IsPrefix.length_le h

theorem lt_size_of_get? {a : Arena} {e : ExprId} {n : Node} (h : a.get? e = some n) :
    e < a.size :=
  (Array.getElem?_eq_some_iff.mp h).1

theorem exists_get?_of_lt {a : Arena} {e : ExprId} (h : e < a.size) :
    ∃ n, a.get? e = some n :=
  ⟨a.nodes[e], Array.getElem?_eq_getElem h⟩

theorem GrowsTo.get?_eq {a b : Arena} (h : a.GrowsTo b) {e : ExprId} (he : e < a.size) :
    b.get? e = a.get? e := by
  obtain ⟨rest, hrest⟩ := h
  have he' : e < a.nodes.toList.length := by simpa [size] using he
  rw [get?, get?, ← Array.getElem?_toList, ← Array.getElem?_toList, ← hrest,
    List.getElem?_append_left he']

theorem GrowsTo.get?_of_some {a b : Arena} (h : a.GrowsTo b) {e : ExprId} {n : Node}
    (he : a.get? e = some n) : b.get? e = some n := by
  rw [h.get?_eq (lt_size_of_get? he), he]

def isShared (a : Arena) (e : ExprId) : Bool :=
  (a.get? e).any Node.isShared

theorem isShared_eq {a : Arena} {e : ExprId} {n : Node} (h : a.get? e = some n) :
    a.isShared e = n.isShared := by
  simp [isShared, h]

theorem exists_of_isShared {a : Arena} {e : ExprId} (h : a.isShared e = true) :
    ∃ x, a.get? e = some (.shared x) := by
  obtain ⟨n, hn, hshared⟩ := (Option.any_eq_true _ _).mp h
  cases n with
  | shared x => exact ⟨x, hn⟩
  | _ => cases hshared

theorem GrowsTo.isShared_eq {a b : Arena} (h : a.GrowsTo b) {e : ExprId} (he : e < a.size) :
    b.isShared e = a.isShared e := by
  rw [isShared, isShared, h.get?_eq he]

theorem GrowsTo.isReusable_eq {a b : Arena} (h : a.GrowsTo b) {e : ExprId} (he : e < a.size) :
    b.isReusable e = a.isReusable e := by
  rw [isReusable, isReusable, h.get?_eq he]

theorem GrowsTo.get?_cases {a b : Arena} (h : a.GrowsTo b) {e : ExprId} {n : Node}
    (he : b.get? e = some n) : a.get? e = some n ∨ a.size ≤ e := by
  rcases Nat.lt_or_ge e a.size with hlt | hge
  · exact Or.inl ((h.get?_eq hlt).symm.trans he)
  · exact Or.inr hge

/-- Making the expression `x` leads from `a` to `b`: nodes are appended, and `x` is the last. -/
structure Appends (a : Arena) (x : ExprId) (b : Arena) : Prop where
  growsTo : a.GrowsTo b
  size_le : a.size ≤ x
  succ_eq : x + 1 = b.size

theorem Appends.lt_size {a b : Arena} {x : ExprId} (h : a.Appends x b) : x < b.size := by
  rw [← h.succ_eq]
  exact Nat.lt_succ_self x

/-- Nodes made before, of operands, do not change where an expression stands. -/
theorem Appends.of_growsTo {a b c : Arena} {x : ExprId} (hab : a.GrowsTo b)
    (hbc : b.Appends x c) : a.Appends x c where
  growsTo := hab.trans hbc.growsTo
  size_le := Nat.le_trans hab.size_le hbc.size_le
  succ_eq := hbc.succ_eq

/-! ## One operation at a time -/

@[simp] theorem add_fst (a : Arena) (n : Node) : (a.add n).1 = a.size := rfl

theorem growsTo_add (a : Arena) (n : Node) : a.GrowsTo (a.add n).2 := by
  simp [GrowsTo, add]

theorem appends_add (a : Arena) (n : Node) : a.Appends a.size (a.add n).2 where
  growsTo := growsTo_add a n
  size_le := Nat.le_refl _
  succ_eq := (size_add a n).symm

theorem GrowsTo.get?_size {a b : Arena} {n : Node} (h : (a.add n).2.GrowsTo b) :
    b.get? a.size = some n :=
  h.get?_of_some (get?_add_self a n)

theorem get?_add_eq_some {a : Arena} {n m : Node} {e : ExprId}
    (h : (a.add n).2.get? e = some m) : a.get? e = some m ∨ e = a.size ∧ m = n := by
  rcases (growsTo_add a n).get?_cases h with hold | hge
  · exact Or.inl hold
  · have hlt := lt_size_of_get? h
    rw [size_add] at hlt
    obtain rfl : e = a.size := Nat.le_antisymm (Nat.le_of_lt_succ hlt) hge
    rw [get?_add_self] at h
    exact Or.inr ⟨rfl, (Option.some.inj h).symm⟩

theorem share_of_reusable {a : Arena} {e : ExprId} (h : a.isReusable e = true) :
    a.share e = (e, a) := by
  simp [share, h]

theorem share_of_not_reusable {a : Arena} {e : ExprId} (h : a.isReusable e = false) :
    a.share e = (a.size, (a.add (.shared e)).2) := by
  simp only [share, h]
  rfl

theorem growsTo_share (a : Arena) (e : ExprId) : a.GrowsTo (a.share e).2 := by
  cases h : a.isReusable e with
  | true =>
      rw [share_of_reusable h]
      exact GrowsTo.refl a
  | false =>
      rw [share_of_not_reusable h]
      exact growsTo_add a _

theorem fst_share_lt {a : Arena} {e : ExprId} (he : e < a.size) :
    (a.share e).1 < (a.share e).2.size := by
  cases hreuse : a.isReusable e with
  | true =>
      rw [share_of_reusable hreuse]
      exact he
  | false =>
      rw [share_of_not_reusable hreuse]
      exact (appends_add a _).lt_size

/-! ## Borrowing calls -/

theorem borrow_nil (a : Arena) (mask : BitVec 32) (i : Nat) :
    a.borrow mask i [] = (⟨[], []⟩, a) := rfl

theorem borrow_cons_of_bit {a : Arena} {mask : BitVec 32} {i : Nat} {e : ExprId}
    {es : List ExprId} (h : mask.getLsbD i = true) :
    a.borrow mask i (e :: es) =
      let s := a.share e
      let r := s.2.add (.release s.1)
      let rest := r.2.borrow mask (i + 1) es
      (⟨s.1 :: rest.1.args, r.1 :: rest.1.releases⟩, rest.2) := by
  simp [borrow, h]

theorem borrow_cons_of_not_bit {a : Arena} {mask : BitVec 32} {i : Nat} {e : ExprId}
    {es : List ExprId} (h : mask.getLsbD i = false) :
    a.borrow mask i (e :: es) =
      let rest := a.borrow mask (i + 1) es
      (⟨e :: rest.1.args, rest.1.releases⟩, rest.2) := by
  simp [borrow, h]

theorem growsTo_borrow (mask : BitVec 32) (es : List ExprId) :
    ∀ (a : Arena) (i : Nat), a.GrowsTo (a.borrow mask i es).2 := by
  induction es with
  | nil => exact fun a _ => GrowsTo.refl a
  | cons e es ih =>
      intro a i
      cases h : mask.getLsbD i with
      | true =>
          rw [borrow_cons_of_bit h]
          exact (growsTo_share a e).trans ((growsTo_add _ _).trans (ih _ _))
      | false =>
          rw [borrow_cons_of_not_bit h]
          exact ih a (i + 1)

theorem borrow_lt (mask : BitVec 32) {es : List ExprId} :
    ∀ {a : Arena} {i : Nat}, (∀ e ∈ es, e < a.size) →
      (∀ x ∈ (a.borrow mask i es).1.args, x < (a.borrow mask i es).2.size) ∧
        ∀ x ∈ (a.borrow mask i es).1.releases, x < (a.borrow mask i es).2.size := by
  induction es with
  | nil =>
      intro a i _
      simp [borrow_nil]
  | cons e es ih =>
      intro a i hlt
      have he : e < a.size := hlt e List.mem_cons_self
      have hes : ∀ x ∈ es, x < a.size := fun x hx => hlt x (List.mem_cons_of_mem _ hx)
      cases hbit : mask.getLsbD i with
      | false =>
          rw [borrow_cons_of_not_bit hbit]
          refine ⟨fun x hx => ?_, (ih hes).2⟩
          rcases List.mem_cons.mp hx with rfl | hx
          · exact Nat.lt_of_lt_of_le he (growsTo_borrow mask es a (i + 1)).size_le
          · exact (ih hes).1 x hx
      | true =>
          rw [borrow_cons_of_bit hbit]
          have hadd := growsTo_add (a.share e).2 (.release (a.share e).1)
          have hrest := growsTo_borrow mask es
            ((a.share e).2.add (.release (a.share e).1)).2 (i + 1)
          have hes' : ∀ x ∈ es, x < ((a.share e).2.add (.release (a.share e).1)).2.size :=
            fun x hx => Nat.lt_of_lt_of_le (hes x hx) ((growsTo_share a e).trans hadd).size_le
          refine ⟨fun x hx => ?_, fun x hx => ?_⟩
          · rcases List.mem_cons.mp hx with rfl | hx
            · exact Nat.lt_of_lt_of_le (fst_share_lt he) (hadd.trans hrest).size_le
            · exact (ih hes').1 x hx
          · rcases List.mem_cons.mp hx with rfl | hx
            · exact Nat.lt_of_lt_of_le (appends_add _ _).lt_size hrest.size_le
            · exact (ih hes').2 x hx

/-- Where nothing is borrowed, a borrowing call is the plain call. -/
theorem borrowCall_of_isEmpty {a : Arena} {name : String} {mask : BitVec 32} {isAsync : Bool}
    {args : List ExprId} (h : (a.borrow mask 0 args).1.releases.isEmpty = true) :
    a.borrowCall name mask isAsync args =
      (a.borrow mask 0 args).2.add (.runtimeCall name isAsync (a.borrow mask 0 args).1.args) := by
  simp only [borrowCall, h]
  rfl

theorem share_call (a : Arena) (name : String) (isAsync : Bool) (args : List ExprId) :
    (a.add (.runtimeCall name isAsync args)).2.share a.size =
      (a.size + 1, ((a.add (.runtimeCall name isAsync args)).2.add (.shared a.size)).2) := by
  rw [share_of_not_reusable (by simp [isReusable, Node.isLiteral, Node.isShared]), size_add]

/-- Where something is borrowed, the call is shared and the releases stand between its uses. -/
theorem borrowCall_of_not_isEmpty {a : Arena} {name : String} {mask : BitVec 32}
    {isAsync : Bool} {args : List ExprId}
    (h : (a.borrow mask 0 args).1.releases.isEmpty = false) :
    a.borrowCall name mask isAsync args =
      let r := a.borrow mask 0 args
      let called := (r.2.add (.runtimeCall name isAsync r.1.args)).2
      (called.add (.shared r.2.size)).2.add
        (.sequence ((r.2.size + 1) :: r.1.releases ++ [r.2.size + 1])) := by
  simp only [borrowCall, h, add_fst, share_call]
  rfl

/-- Either way the call itself is made right after what borrowing appends. -/
theorem called_growsTo_borrowCall (a : Arena) (name : String) (mask : BitVec 32) (isAsync : Bool)
    (args : List ExprId) :
    ((a.borrow mask 0 args).2.add
      (.runtimeCall name isAsync (a.borrow mask 0 args).1.args)).2.GrowsTo
        (a.borrowCall name mask isAsync args).2 := by
  cases h : (a.borrow mask 0 args).1.releases.isEmpty with
  | true =>
      rw [borrowCall_of_isEmpty h]
      exact GrowsTo.refl _
  | false =>
      rw [borrowCall_of_not_isEmpty h]
      exact (growsTo_add _ _).trans (growsTo_add _ _)

theorem appends_borrowCall (a : Arena) (name : String) (mask : BitVec 32) (isAsync : Bool)
    (args : List ExprId) :
    a.Appends (a.borrowCall name mask isAsync args).1
      (a.borrowCall name mask isAsync args).2 := by
  refine Appends.of_growsTo (growsTo_borrow mask args a 0) ?_
  cases h : (a.borrow mask 0 args).1.releases.isEmpty with
  | true =>
      rw [borrowCall_of_isEmpty h]
      exact appends_add _ _
  | false =>
      rw [borrowCall_of_not_isEmpty h]
      exact ((appends_add _ _).of_growsTo (growsTo_add _ _)).of_growsTo (growsTo_add _ _)

end Arena

/-! ## Access to cells -/

namespace Cell

open Arena

theorem appends_load (c : Cell) (a : Arena) : a.Appends (c.load a).1 (c.load a).2 := by
  unfold load slot
  cases c.isBoxed <;> cases c.refCounted
  · exact appends_add _ _
  · exact (appends_add _ _).of_growsTo (growsTo_add _ _)
  · exact (appends_add _ _).of_growsTo (growsTo_add _ _)
  · exact ((appends_add _ _).of_growsTo (growsTo_add _ _)).of_growsTo (growsTo_add _ _)

theorem appends_storeSlot (c : Cell) (value : ExprId) (a : Arena) :
    a.Appends (c.storeSlot value a).1 (c.storeSlot value a).2 :=
  (appends_add _ _).of_growsTo (growsTo_add _ _)

theorem appends_assign (c : Cell) (value : ExprId) (a : Arena) :
    a.Appends (c.assign value a).1 (c.assign value a).2 := by
  unfold assign
  split
  · exact (appends_add _ _).of_growsTo (growsTo_add _ _)
  · exact appends_storeSlot c value a

end Cell

end StackIR
