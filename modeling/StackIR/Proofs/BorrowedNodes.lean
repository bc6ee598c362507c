import Mathlib.Algebra.Ring.Nat
import StackIR.Proofs.Growth

/-!
# The nodes a borrowing call makes

A call that borrows some of its arguments makes, for each of those from the left, a shared node
over the argument (unless it can be used at several places as it is) and a release, then the call,
a shared node over the call and the sequence around the releases (`Arena.makes_borrowCall`). Where
the nodes of an argument stand follows from how many nodes the borrowed arguments before it take
(`Arena.borrowStart`), so each position is known from the arguments and the mask alone.

The arguments are followed from the left, so the induction is on the last one: what is said of an
argument only depends on the arguments before it.
-/

namespace StackIR.Arena

/-- The positions of the first `n` arguments that are set in the mask, in ascending order. -/
def borrowedPositions (mask : BitVec 32) (n : Nat) : List Nat :=
  (List.range (min n 32)).filter fun i => mask.getLsbD i

/-- How many nodes are made to borrow an expression: a release, and a shared node unless the
expression can be used at several places as it is. -/
def borrowWidth (a : Arena) (e : ExprId) : Nat :=
  if a.isReusable e then 1 else 2

section Layout

variable (a : Arena) (mask : BitVec 32) (args : List ExprId)

/-- Where the nodes made for the argument at position `i` start. -/
def borrowStart (i : Nat) : Nat :=
  a.size + ((borrowedPositions mask i).map fun j => a.borrowWidth (args.getD j 0)).sum

/-- What the call is handed at position `i`. -/
def handedOn (i : Nat) : ExprId :=
  if mask.getLsbD i = true ∧ a.isReusable (args.getD i 0) = false then a.borrowStart mask args i
  else args.getD i 0

/-- The release of the borrowed argument at position `i`. -/
def releaseOf (i : Nat) : ExprId :=
  a.borrowStart mask args i + if a.isReusable (args.getD i 0) then 0 else 1

/-- The nodes made for the borrowed argument at position `i`. -/
def borrowNodes (i : Nat) : List Node :=
  (if a.isReusable (args.getD i 0) then [] else [.shared (args.getD i 0)]) ++
    [.release (a.handedOn mask args i)]

end Layout

/-- What a call that borrows the arguments set in `mask` leaves behind. -/
structure BorrowCallMakes (a : Arena) (name : String) (mask : BitVec 32) (isAsync : Bool)
    (args : List ExprId) (made : ExprId × Arena) : Prop where
  unchanged : ∀ e < a.size, made.2.get? e = a.get? e
  plain : borrowedPositions mask args.length = [] →
    made = (a.size, ⟨a.nodes.push (.runtimeCall name isAsync args)⟩)
  /-- The nodes in the order they are made, the call at `a.borrowStart mask args args.length`. -/
  borrowing : borrowedPositions mask args.length ≠ [] →
    made.1 = a.borrowStart mask args args.length + 2 ∧
    made.2.nodes.toList = a.nodes.toList ++
      (borrowedPositions mask args.length).flatMap (a.borrowNodes mask args) ++
      [.runtimeCall name isAsync ((List.range args.length).map (a.handedOn mask args)),
        .shared (a.borrowStart mask args args.length),
        .sequence ((a.borrowStart mask args args.length + 1) ::
          (borrowedPositions mask args.length).map (a.releaseOf mask args) ++
          [a.borrowStart mask args args.length + 1])]
  owned : ∀ i < args.length, i ∉ borrowedPositions mask args.length →
    a.handedOn mask args i = args.getD i 0
  reused : ∀ i, a.isReusable (args.getD i 0) = true → a.handedOn mask args i = args.getD i 0
  wrapped : ∀ i ∈ borrowedPositions mask args.length, a.isReusable (args.getD i 0) = false →
    made.2.get? (a.handedOn mask args i) = some (.shared (args.getD i 0))
  released : ∀ i ∈ borrowedPositions mask args.length,
    made.2.get? (a.releaseOf mask args i) = some (.release (a.handedOn mask args i))

variable {a : Arena} {mask : BitVec 32} {args : List ExprId}

/-! ## The borrowed positions -/

theorem mem_borrowedPositions {n i : Nat} :
    i ∈ borrowedPositions mask n ↔ i < n ∧ mask.getLsbD i = true := by
  simp only [borrowedPositions, List.mem_filter, List.mem_range, Nat.lt_min]
  constructor
  · exact fun h => ⟨h.1.1, h.2⟩
  · intro h
    exact ⟨⟨h.1, BitVec.lt_of_getLsbD h.2⟩, h.2⟩

theorem borrowedPositions_succ (mask : BitVec 32) (n : Nat) :
    borrowedPositions mask (n + 1) =
      borrowedPositions mask n ++ if mask.getLsbD n then [n] else [] := by
  unfold borrowedPositions
  rcases Nat.lt_or_ge n 32 with hlt | hge
  · rw [Nat.min_eq_left hlt, Nat.min_eq_left (Nat.le_of_lt hlt), List.range_succ,
      List.filter_append]
    cases hbit : mask.getLsbD n <;> simp [hbit]
  · rw [Nat.min_eq_right hge, Nat.min_eq_right (Nat.le_succ_of_le hge),
      BitVec.getLsbD_of_ge mask n hge]
    simp

theorem borrowedPositions_isPrefix (mask : BitVec 32) {m n : Nat} (h : m ≤ n) :
    borrowedPositions mask m <+: borrowedPositions mask n := by
  induction h with
  | refl => exact List.prefix_refl _
  | step _ ih =>
      rw [borrowedPositions_succ]
      exact ih.trans (List.prefix_append _ _)

/-- A borrowed position parts the borrowed positions. -/
theorem exists_borrowedPositions_eq {n i : Nat} (h : i ∈ borrowedPositions mask n) :
    ∃ rest, borrowedPositions mask n = borrowedPositions mask i ++ i :: rest := by
  obtain ⟨hi, hbit⟩ := mem_borrowedPositions.mp h
  obtain ⟨rest, hrest⟩ := borrowedPositions_isPrefix mask hi
  refine ⟨rest, ?_⟩
  rw [← hrest, borrowedPositions_succ, hbit, if_pos rfl, List.append_assoc, List.singleton_append]

/-! ## The kinds of arguments -/

theorem handedOn_of_not_bit {i : Nat} (h : mask.getLsbD i = false) :
    a.handedOn mask args i = args.getD i 0 := by
  simp [handedOn, h]

theorem handedOn_of_reusable {i : Nat} (h : a.isReusable (args.getD i 0) = true) :
    a.handedOn mask args i = args.getD i 0 := by
  simp only [handedOn, h, Bool.true_eq_false, and_false, if_false]

theorem handedOn_of_wrapped {i : Nat} (hbit : mask.getLsbD i = true)
    (h : a.isReusable (args.getD i 0) = false) :
    a.handedOn mask args i = a.borrowStart mask args i := by
  rw [handedOn, if_pos ⟨hbit, h⟩]

theorem releaseOf_of_reusable {i : Nat} (h : a.isReusable (args.getD i 0) = true) :
    a.releaseOf mask args i = a.borrowStart mask args i := by
  rw [releaseOf, if_pos h, Nat.add_zero]

theorem releaseOf_of_wrapped {i : Nat} (h : a.isReusable (args.getD i 0) = false) :
    a.releaseOf mask args i = a.borrowStart mask args i + 1 := by
  rw [releaseOf, h]
  rfl

theorem borrowNodes_of_reusable {i : Nat} (h : a.isReusable (args.getD i 0) = true) :
    a.borrowNodes mask args i = [.release (args.getD i 0)] := by
  rw [borrowNodes, if_pos h, handedOn_of_reusable h, List.nil_append]

theorem borrowNodes_of_wrapped {i : Nat} (hbit : mask.getLsbD i = true)
    (h : a.isReusable (args.getD i 0) = false) :
    a.borrowNodes mask args i =
      [.shared (args.getD i 0), .release (a.borrowStart mask args i)] := by
  rw [borrowNodes, h, handedOn_of_wrapped hbit h]
  rfl

theorem length_borrowNodes (i : Nat) :
    (a.borrowNodes mask args i).length = a.borrowWidth (args.getD i 0) := by
  unfold borrowNodes borrowWidth
  split <;> rfl

/-! ## Only the arguments before matter -/

theorem borrowStart_succ (i : Nat) :
    a.borrowStart mask args (i + 1) =
      a.borrowStart mask args i + if mask.getLsbD i then a.borrowWidth (args.getD i 0) else 0 := by
  unfold borrowStart
  rw [borrowedPositions_succ]
  cases mask.getLsbD i <;> simp [Nat.add_assoc]

theorem getD_concat {i : Nat} (hi : i < args.length) (e : ExprId) :
    (args ++ [e]).getD i 0 = args.getD i 0 := by
  rw [List.getD_eq_getElem?_getD, List.getD_eq_getElem?_getD, List.getElem?_append_left hi]

theorem borrowStart_concat {i : Nat} (hi : i ≤ args.length) (e : ExprId) :
    a.borrowStart mask (args ++ [e]) i = a.borrowStart mask args i := by
  unfold borrowStart
  congr 2
  refine List.map_congr_left fun j hj => ?_
  rw [getD_concat (Nat.lt_of_lt_of_le (mem_borrowedPositions.mp hj).1 hi)]

theorem handedOn_concat {i : Nat} (hi : i < args.length) (e : ExprId) :
    a.handedOn mask (args ++ [e]) i = a.handedOn mask args i := by
  simp only [handedOn, getD_concat hi, borrowStart_concat (Nat.le_of_lt hi)]

theorem releaseOf_concat {i : Nat} (hi : i < args.length) (e : ExprId) :
    a.releaseOf mask (args ++ [e]) i = a.releaseOf mask args i := by
  simp only [releaseOf, getD_concat hi, borrowStart_concat (Nat.le_of_lt hi)]

theorem borrowNodes_concat {i : Nat} (hi : i < args.length) (e : ExprId) :
    a.borrowNodes mask (args ++ [e]) i = a.borrowNodes mask args i := by
  simp only [borrowNodes, getD_concat hi, handedOn_concat hi]

/-! ## Borrowing the arguments -/

theorem borrow_concat (mask : BitVec 32) (e : ExprId) (es : List ExprId) :
    ∀ (a : Arena) (i : Nat), a.borrow mask i (es ++ [e]) =
      let r := a.borrow mask i es
      if mask.getLsbD (i + es.length) then
        let s := r.2.share e
        (⟨r.1.args ++ [s.1], r.1.releases ++ [s.2.size]⟩, (s.2.add (.release s.1)).2)
      else (⟨r.1.args ++ [e], r.1.releases⟩, r.2) := by
  induction es with
  | nil =>
      intro a i
      cases h : mask.getLsbD i <;> simp [borrow, h]
  | cons e' es ih =>
      intro a i
      have hlength : i + (e' :: es).length = i + 1 + es.length := by
        rw [List.length_cons]
        omega
      rw [List.cons_append, hlength]
      cases h : mask.getLsbD i with
      | true =>
          rw [borrow_cons_of_bit h, borrow_cons_of_bit h]
          dsimp only
          rw [ih]
          dsimp only
          split <;> rfl
      | false =>
          rw [borrow_cons_of_not_bit h, borrow_cons_of_not_bit h]
          dsimp only
          rw [ih]
          dsimp only
          split <;> rfl

/-- What borrowing the arguments from the left returns and leaves behind. -/
structure BorrowMakes (a : Arena) (mask : BitVec 32) (args : List ExprId)
    (made : Borrowed × Arena) : Prop where
  args_eq : made.1.args = (List.range args.length).map (a.handedOn mask args)
  releases_eq : made.1.releases = (borrowedPositions mask args.length).map (a.releaseOf mask args)
  nodes_eq : made.2.nodes.toList =
    a.nodes.toList ++ (borrowedPositions mask args.length).flatMap (a.borrowNodes mask args)
  size_eq : made.2.size = a.borrowStart mask args args.length

/-- Whatever is made for one more argument stands behind what is made for the others. -/
theorem BorrowMakes.concat {made : Borrowed × Arena} (h : a.BorrowMakes mask args made)
    (e : ExprId) {x : ExprId} (releases : List ExprId) (nodes : List Node) {b : Arena}
    (hx : x = a.handedOn mask (args ++ [e]) args.length)
    (hreleases : releases =
      if mask.getLsbD args.length then [a.releaseOf mask (args ++ [e]) args.length] else [])
    (hnodes : nodes =
      if mask.getLsbD args.length then a.borrowNodes mask (args ++ [e]) args.length else [])
    (hb : b.nodes.toList = made.2.nodes.toList ++ nodes) :
    a.BorrowMakes mask (args ++ [e])
      (⟨made.1.args ++ [x], made.1.releases ++ releases⟩, b) where
  args_eq := by
    dsimp only
    rw [List.length_append, List.length_singleton, List.range_succ, List.map_append,
      List.map_singleton, h.args_eq, hx]
    congr 1
    exact List.map_congr_left fun i hi => (handedOn_concat (List.mem_range.mp hi) e).symm
  releases_eq := by
    dsimp only
    rw [List.length_append, List.length_singleton, borrowedPositions_succ, List.map_append,
      h.releases_eq, hreleases]
    refine congrArg₂ (· ++ ·) (List.map_congr_left fun i hi => ?_) (by split <;> rfl)
    exact (releaseOf_concat (mem_borrowedPositions.mp hi).1 e).symm
  nodes_eq := by
    dsimp only
    rw [hb, h.nodes_eq, hnodes, List.length_append, List.length_singleton,
      borrowedPositions_succ, List.flatMap_append, List.append_assoc]
    refine congrArg (a.nodes.toList ++ ·)
      (congrArg₂ (· ++ ·) (List.flatMap_congr fun i hi => ?_) (by split <;> simp))
    exact (borrowNodes_concat (mem_borrowedPositions.mp hi).1 e).symm
  size_eq := by
    have hsize : b.size = made.2.size + nodes.length := by
      rw [size, size, ← Array.length_toList, ← Array.length_toList, hb, List.length_append]
    dsimp only
    rw [hsize, h.size_eq, hnodes, List.length_append, List.length_singleton, borrowStart_succ,
      borrowStart_concat (Nat.le_refl _)]
    split
    · rw [length_borrowNodes]
    · rfl

theorem makes_borrow (mask : BitVec 32) (hargs : ∀ e ∈ args, e < a.size) :
    a.BorrowMakes mask args (a.borrow mask 0 args) := by
  induction args using List.reverseRecOn with
  | nil =>
      rw [borrow_nil]
      constructor <;> simp [borrowedPositions, borrowStart]
  | append_singleton es e ih =>
      have hes := ih fun x hx => hargs x (List.mem_append_left _ hx)
      have hlast : (es ++ [e]).getD es.length 0 = e := by simp
      have hstart : a.borrowStart mask (es ++ [e]) es.length = (a.borrow mask 0 es).2.size := by
        rw [borrowStart_concat (Nat.le_refl _), hes.size_eq]
      rw [borrow_concat, Nat.zero_add]
      dsimp only
      cases hbit : mask.getLsbD es.length with
      | false =>
          have hmade := hes.concat e [] [] (b := (a.borrow mask 0 es).2)
            (handedOn_of_not_bit hbit).symm (by rw [hbit]; rfl) (by rw [hbit]; rfl)
            (List.append_nil _).symm
          rwa [hlast, List.append_nil] at hmade
      | true =>
          have hgrow := (growsTo_borrow mask es a 0).isReusable_eq (hargs e (by simp))
          rw [if_pos rfl]
          cases hreuse : a.isReusable e with
          | true =>
              rw [share_of_reusable (hgrow.trans hreuse)]
              rw [← hlast] at hreuse
              refine hes.concat e _ [.release e] ?_ ?_ ?_ ?_
              · rw [handedOn_of_reusable hreuse, hlast]
              · rw [hbit, if_pos rfl, releaseOf_of_reusable hreuse, hstart]
              · rw [hbit, if_pos rfl, borrowNodes_of_reusable hreuse, hlast]
              · simp [add]
          | false =>
              rw [share_of_not_reusable (hgrow.trans hreuse)]
              rw [← hlast] at hreuse
              refine hes.concat e _ [.shared e, .release (a.borrow mask 0 es).2.size] ?_ ?_ ?_ ?_
              · rw [handedOn_of_wrapped hbit hreuse, hstart]
              · rw [hbit, if_pos rfl, releaseOf_of_wrapped hreuse, hstart, size_add]
              · rw [hbit, if_pos rfl, borrowNodes_of_wrapped hbit hreuse, hlast, hstart]
              · simp [add]

/-! ## The call -/

/-- The nodes made for a borrowed argument stand where `borrowStart` says. -/
theorem BorrowMakes.get?_eq {made : Borrowed × Arena} (h : a.BorrowMakes mask args made) {i k : Nat}
    (hi : i ∈ borrowedPositions mask args.length) {n : Node}
    (hn : (a.borrowNodes mask args i)[k]? = some n) :
    made.2.get? (a.borrowStart mask args i + k) = some n := by
  obtain ⟨rest, hrest⟩ := exists_borrowedPositions_eq hi
  have hstart : (a.nodes.toList ++
      (borrowedPositions mask i).flatMap (a.borrowNodes mask args)).length =
      a.borrowStart mask args i := by
    rw [List.length_append, List.length_flatMap, Array.length_toList, borrowStart, size]
    simp only [length_borrowNodes]
  rw [get?, ← Array.getElem?_toList, h.nodes_eq, hrest, List.flatMap_append, List.flatMap_cons,
    ← List.append_assoc, ← hstart, List.getElem?_append_right (Nat.le_add_right _ _),
    Nat.add_sub_cancel_left]
  exact List.getElem?_append_left (List.getElem?_eq_some_iff.mp hn).1 |>.trans hn

theorem BorrowMakes.get?_releaseOf {made : Borrowed × Arena} (h : a.BorrowMakes mask args made)
    {i : Nat} (hi : i ∈ borrowedPositions mask args.length) :
    made.2.get? (a.releaseOf mask args i) = some (.release (a.handedOn mask args i)) := by
  unfold releaseOf
  refine h.get?_eq hi ?_
  unfold borrowNodes
  split <;> rfl

theorem BorrowMakes.get?_handedOn {made : Borrowed × Arena} (h : a.BorrowMakes mask args made)
    {i : Nat} (hi : i ∈ borrowedPositions mask args.length)
    (hreuse : a.isReusable (args.getD i 0) = false) :
    made.2.get? (a.handedOn mask args i) = some (.shared (args.getD i 0)) := by
  have hbit := (mem_borrowedPositions.mp hi).2
  rw [handedOn_of_wrapped hbit hreuse]
  exact h.get?_eq hi (k := 0) (by rw [borrowNodes_of_wrapped hbit hreuse]; rfl)

/-- Where nothing is borrowed, the arguments are handed on as they are. -/
theorem BorrowMakes.args_handed {made : Borrowed × Arena} (h : a.BorrowMakes mask args made)
    (hnone : borrowedPositions mask args.length = []) : made.1.args = args := by
  rw [h.args_eq]
  refine List.ext_getElem (by simp) fun i hi hi' => ?_
  have hnot : i ∉ borrowedPositions mask args.length := by
    rw [hnone]
    exact List.not_mem_nil
  rw [mem_borrowedPositions, not_and, Bool.not_eq_true] at hnot
  rw [List.getElem_map, List.getElem_range, handedOn_of_not_bit (hnot hi'),
    List.getD_eq_getElem?_getD, List.getElem?_eq_getElem hi', Option.getD_some]

theorem BorrowMakes.arena_eq {made : Borrowed × Arena} (h : a.BorrowMakes mask args made)
    (hnone : borrowedPositions mask args.length = []) : made.2 = a := by
  have hnodes := h.nodes_eq
  rw [hnone, List.flatMap_nil, List.append_nil] at hnodes
  exact congrArg Arena.mk (Array.toList_inj.mp hnodes)

/-- A call that borrows the arguments set in `mask` makes the nodes of the borrowed arguments from
the left, then the call over what it is handed, and then, where it borrows at all, a shared node
over the call and the sequence of the releases between two uses of it. -/
theorem makes_borrowCall (a : Arena) (name : String) (mask : BitVec 32) (isAsync : Bool)
    (args : List ExprId) (hargs : ∀ e ∈ args, e < a.size) :
    a.BorrowCallMakes name mask isAsync args (a.borrowCall name mask isAsync args) := by
  have hmade := makes_borrow mask hargs
  have hcalled := (growsTo_add _ _).trans (called_growsTo_borrowCall a name mask isAsync args)
  have hempty : (a.borrow mask 0 args).1.releases.isEmpty =
      (borrowedPositions mask args.length).isEmpty := by
    rw [hmade.releases_eq, List.isEmpty_map]
  constructor
  case unchanged =>
      exact fun e he => (appends_borrowCall a name mask isAsync args).growsTo.get?_eq he
  case plain =>
      intro hnone
      rw [borrowCall_of_isEmpty (hempty.trans (by rw [hnone]; rfl)), hmade.args_handed hnone,
        hmade.arena_eq hnone]
      rfl
  case borrowing =>
      intro hsome
      rw [borrowCall_of_not_isEmpty (hempty.trans (List.isEmpty_eq_false_iff.mpr hsome)),
        ← hmade.size_eq, ← hmade.args_eq, ← hmade.releases_eq]
      refine ⟨by simp, ?_⟩
      rw [← hmade.nodes_eq]
      simp [add]
  case owned =>
      intro i hi hnot
      rw [mem_borrowedPositions, not_and, Bool.not_eq_true] at hnot
      exact handedOn_of_not_bit (hnot hi)
  case reused => exact fun i h => handedOn_of_reusable h
  case wrapped =>
      exact fun i hi hreuse => hcalled.get?_of_some (hmade.get?_handedOn hi hreuse)
  case released => exact fun i hi => hcalled.get?_of_some (hmade.get?_releaseOf hi)

/-- An arena with a literal, a jump value and a shared node over it. -/
def threeKinds : Arena :=
  ⟨#[.literal (.int 7), .jumpValue, .shared 1]⟩

/-- A literal and a shared node are released as they are, the argument between them is not
borrowed, and the last one is wrapped; the bit past the arguments does nothing. -/
theorem makes_borrowCall_threeKinds :
    (∀ e ∈ [0, 1, 2, 1], e < threeKinds.size) ∧
      threeKinds.BorrowCallMakes "f" 0x8000000D false [0, 1, 2, 1]
        (9, ⟨threeKinds.nodes ++ #[.release 0, .release 2, .shared 1, .release 5,
          .runtimeCall "f" false [0, 1, 2, 5], .shared 7, .sequence [8, 3, 4, 6, 8]]⟩) :=
  ⟨by decide, makes_borrowCall threeKinds "f" 0x8000000D false [0, 1, 2, 1] (by decide)⟩

end StackIR.Arena
