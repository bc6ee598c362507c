import StackIR.Proofs.Balance
import StackIR.Proofs.BodyOutlines
import StackIR.Proofs.ExactLinking
import StackIR.Proofs.Rearranging

/-!
# Shared values are used in place

A lowered procedure uses every node of its arena, and uses a shared value twice, in the expression
of one statement: the first use computes it, outside of any release, and the second reads it again
(`Script.usedInPlace_of_lower`). So a jump, which can only come in between statements, never gets
past the computation of a value to its use.

That nodes are used as often as they are taken over follows from the equations of the visits
(`Script.Stretches.isVisits`); where the uses stand follows from the outlines of the statements.
-/

namespace StackIR

namespace Node

theorem operands_of_isLiteral {n : Node} (h : n.isLiteral = true) : n.operands = [] := by
  cases n with
  | literal _ | pointer _ _ => rfl
  | _ => cases h

theorem isShared_of_isLiteral {n : Node} (h : n.isLiteral = true) : n.isShared = false := by
  cases n with
  | shared _ => cases h
  | _ => rfl

end Node

namespace Arena

open Finset

/-! ## How often nodes are taken over and visited -/

theorem exists_of_isLiteral {a : Arena} {e : ExprId} (h : a.isLiteral e = true) :
    ∃ n, a.get? e = some n ∧ n.isLiteral = true :=
  (Option.any_eq_true _ _).mp h

theorem isReusable_of_isLiteral {a : Arena} {e : ExprId} (h : a.isLiteral e = true) :
    a.isReusable e = true := by
  obtain ⟨n, hn, hliteral⟩ := exists_of_isLiteral h
  rw [isReusable, hn, Option.any_some, hliteral, Bool.true_or]

/-- How many releases a literal stands under. -/
def literalReleases (a : Arena) (v : ExprId) : Nat :=
  ∑ u ∈ range a.size, if a.isLiteral v = true ∧ a.get? u = some (.release v) then 1 else 0

theorem literalReleases_eq_zero {a : Arena} {v : ExprId}
    (h : ∀ u, a.isLiteral v = true → a.get? u ≠ some (.release v)) : a.literalReleases v = 0 := by
  refine sum_eq_zero fun u _ => ?_
  rw [if_neg]
  rintro ⟨hv, hu⟩
  exact h u hv hu

theorem literalReleases_eq_one {a : Arena} {u v : ExprId} (hv : a.isLiteral v = true)
    (hu : a.get? u = some (.release v)) (hunique : ∀ w, a.get? w = some (.release v) → w = u) :
    a.literalReleases v = 1 := by
  unfold literalReleases
  rw [sum_eq_single_of_mem u (mem_range.mpr (lt_size_of_get? hu))]
  · rw [if_pos ⟨hv, hu⟩]
  · intro w _ hne
    rw [if_neg]
    rintro ⟨-, hw⟩
    exact hne (hunique w hw)

theorem operandCount_eq_owned (c : Arena) (u v : ExprId) :
    c.operandCount u v = (c.owned u).count v +
      if c.isLiteral v = true ∧ c.get? u = some (.release v) then 1 else 0 := by
  cases hu : c.get? u with
  | none => simp [operandCount, Arena.owned, hu]
  | some n =>
      rw [operandCount_eq hu]
      cases n with
      | release z =>
          rw [owned_release hu]
          by_cases hzv : z = v
          · subst hzv
            cases c.isLiteral z <;> simp [Node.operands]
          · cases c.isLiteral z <;> simp [Node.operands, hzv]
      | _ =>
          rw [owned_of_get? hu (by simp)]
          simp

/-- Where each node that has operands is entered once, the operands are met as often as they are
taken over, and a literal once more under its release. -/
theorem inflow_eq_owned {c : Arena} {met : ExprId → Nat}
    (hmet : ∀ u n, c.get? u = some n → n.operands ≠ [] →
      if n.isShared then 0 < met u else met u = 1) (v : ExprId) :
    c.inflow met v = ∑ u ∈ range c.size, (c.owned u).count v + c.literalReleases v := by
  unfold inflow literalReleases
  rw [← sum_add_distrib]
  refine sum_congr rfl fun u hu => ?_
  rw [← operandCount_eq_owned]
  obtain ⟨n, hn⟩ := exists_get?_of_lt (mem_range.mp hu)
  by_cases hops : n.operands = []
  · rw [operandCount_eq hn, hops]
    rfl
  · have hentered := hmet u n hn hops
    unfold entries
    rw [isShared_eq hn]
    split at hentered
    next hshared => rw [if_pos hshared, if_pos hentered, Nat.one_mul]
    next hshared => rw [if_neg hshared, hentered, Nat.one_mul]

end Arena

namespace Script

open Arena Finset

/-! ## The visits of a body -/

/-- The statements of a body together take over the arena up to where their stretches end. -/
theorem Stretches.owned {c : Arena} {ss : List StackIR.Stmt} {hi : Nat} (h : Stretches c ss hi) :
    Owned c 0 hi (ss.filterMap StackIR.Stmt.expr?) := by
  induction h with
  | nil => exact Owned.nil c 0
  | @concat ss st mid hi _ howned _ ih =>
      have happend : (ss ++ [st]).filterMap StackIR.Stmt.expr? =
          ss.filterMap StackIR.Stmt.expr? ++ st.expr?.toList := by
        rw [List.filterMap_append]
        cases hroot : st.expr? <;> simp [hroot]
      rw [happend]
      exact ih.append howned

/-- Nodes that are taken over by the statements are visited as often as that, and literals once
more for each release. -/
theorem Stretches.isVisits {p : Procedure} (h : Stretches p.arena p.body.toList p.arena.size) :
    p.IsVisits fun v => p.arena.places v + p.arena.literalReleases v := by
  refine Procedure.isVisits_iff.mpr fun v hv => ?_
  have hcount := (Stretches.owned h).count_eq v
  rw [if_pos ⟨Nat.zero_le v, hv⟩, ← range_eq_Ico] at hcount
  have hinflow : p.arena.inflow (fun v => p.arena.places v + p.arena.literalReleases v) v = _ :=
    inflow_eq_owned (fun u n hn hops => ?_) v
  · rw [hinflow, Procedure.roots]
    omega
  · have hreleases : p.arena.literalReleases u = 0 := literalReleases_eq_zero fun w hu _ => by
      rw [isLiteral, hn] at hu
      exact hops (Node.operands_of_isLiteral hu)
    rw [hreleases, places, isShared_eq hn]
    cases n.isShared <;> simp

/-- A literal that is an argument which its call only borrows. -/
def IsBorrowedLiteral (s : Script) (p : Procedure) (value : Path → ExprId) (e : ExprId) : Prop :=
  p.arena.isLiteral e = true ∧ ∃ π i, s.IsDue (.argument π i) ∧ value (π ++ [i]) = e

section Accounts

variable {s : Script} {p : Procedure} {nodes : Path → PartNodes} {exit : Nat → Cell → ExprId}

theorem ScriptAccounts.exists_release_iff (h : ScriptAccounts s p nodes exit)
    (hshares : p.arena.SharesOnce) {e : ExprId} (he : p.arena.isLiteral e = true) :
    (∃ k, p.arena.get? k = some (.release e)) ↔
      IsBorrowedLiteral s p (fun π => (nodes π).value) e := by
  constructor
  · rintro ⟨k, hk⟩
    obtain ⟨due, hdue, rfl⟩ := h.exists_due hk
    cases due with
    | argument π i =>
        refine ⟨he, π, i, hdue, ?_⟩
        rcases h.borrows_of_release hdue hk with ⟨heq, -⟩ | hshared
        · exact heq.symm
        · rw [isLiteral, hshared] at he
          cases he
    | exit j c =>
        rw [isLiteral, (h.slot_of_release hdue hk).2] at he
        cases he
  · rintro ⟨-, π, i, hdue, rfl⟩
    obtain ⟨-, z, hz, hborrows⟩ := h.argument_node hdue
    rcases hborrows with ⟨rfl, -⟩ | hshared
    · exact ⟨_, hz⟩
    · -- A literal is handed on as it is, not through a shared node.
      have hreusable := isReusable_of_isLiteral he
      rw [(hshares z _ hshared).2] at hreusable
      cases hreusable

theorem ScriptAccounts.release_inj (h : ScriptAccounts s p nodes exit) {k k' x : ExprId}
    (hk : p.arena.get? k = some (.release x)) (hk' : p.arena.get? k' = some (.release x)) :
    k = k' := by
  obtain ⟨due, hdue, rfl⟩ := h.exists_due hk
  obtain ⟨due', hdue', rfl⟩ := h.exists_due hk'
  rw [h.due_unique hdue hdue' hk hk']

/-- Values are released behind the calls they are handed to. -/
theorem ScriptAccounts.releasesLate (h : ScriptAccounts s p nodes exit)
    (hp : Stretches p.arena p.body.toList p.arena.size) : p.arena.ReleasesLate where
  behind {e n} he := (Stretches.owned hp).behind (Nat.zero_le e) (lt_size_of_get? he) he
  operand {e z} he hz := by
    obtain ⟨due, hdue, rfl⟩ := h.exists_due he
    cases due with
    | argument π i =>
        rcases h.borrows_of_release hdue he with ⟨rfl, n, hn, hliteral⟩ | hshared
        · exact ⟨n, hn, Node.operands_of_isLiteral hliteral⟩
        · rw [isShared_eq hshared] at hz
          cases hz
    | exit j c => exact ⟨_, (h.slot_of_release hdue he).2, rfl⟩

/-- A literal that its call only borrows has one release. -/
theorem ScriptAccounts.literalReleases_borrowed (h : ScriptAccounts s p nodes exit)
    (hshares : p.arena.SharesOnce) {e : ExprId}
    (he : IsBorrowedLiteral s p (fun π => (nodes π).value) e) : p.arena.literalReleases e = 1 := by
  obtain ⟨k, hk⟩ := (h.exists_release_iff hshares he.1).mpr he
  exact literalReleases_eq_one he.1 hk fun w hw => h.release_inj hw hk

theorem ScriptAccounts.literalReleases_other (h : ScriptAccounts s p nodes exit)
    (hshares : p.arena.SharesOnce) {e : ExprId}
    (he : ¬IsBorrowedLiteral s p (fun π => (nodes π).value) e) : p.arena.literalReleases e = 0 :=
  literalReleases_eq_zero fun k hliteral hk =>
    he ((h.exists_release_iff hshares hliteral).mp ⟨k, hk⟩)

end Accounts

/-! ## Uses in place -/

/-- The values of a procedure are used as often as its script makes them and where they are
computed. The parts of the script's expressions go by their paths: `value` is the node of each and
`call` the call itself of each that is a call. -/
structure UsedInPlace (s : Script) (p : Procedure) (value call : Path → ExprId)
    (release : Due → ExprId) (trees : List (Option Outline)) : Prop where
  value_injOn : Set.InjOn value {π | ∃ e, s.at? π = some e}
  /-- Each call is handed its arguments, and those it borrows are released. -/
  call_node : ∀ {π : Path} {name : String} {mask : BitVec 32} {isAsync : Bool} {args : List Expr},
    s.at? π = some (.call name mask isAsync args) → p.arena.YieldsCall (value π) (call π) ∧
      p.arena.IsBorrowingCall (call π) name mask isAsync args.length
        (fun i => value (π ++ [i])) fun i => release (.argument π i)
  outlines_eq : p.outlines = some trees
  walk_eq : p.walk = some (visitsFrom 0 trees).toArray
  visited_twice : ∀ e, p.arena.isShared e = true ∨ IsBorrowedLiteral s p value e →
    (visitsFrom 0 trees).count (.expr e) = 2
  visited_once : ∀ e, e < p.arena.size → p.arena.isShared e = false →
    ¬IsBorrowedLiteral s p value e → (visitsFrom 0 trees).count (.expr e) = 1
  shared_in_place : ∀ e, p.arena.isShared e = true → IsComputedInPlace trees e
  /-- Jumps go to whole statements, which refer to nothing themselves. -/
  jump_lands : ∀ r, p.link = .ok r → ∀ (i : Nat) (l : LabelId), r.target? i = some l →
    ∃ k, r.placement? l = some k ∧ trees[k]? = some none
  /-- Whichever statements run one after another, the node that a second reference is to has been
  computed since the statement began. -/
  computed_first : ∀ (run : List Nat) (before after : List Reference) (r : Reference),
    passed trees run = before ++ r :: after → p.arena.isShared r.node = true →
      r.enters = false → ∃ run₁ i run₂ within, run = run₁ ++ i :: run₂ ∧
        before = passed trees run₁ ++ within ∧ (within ++ [r]) <+: passed trees [i] ∧
          ⟨r.node, true, false⟩ ∈ within
  totalUses_eq : ∀ r, p.link = .ok r → ∀ e, p.arena.isShared e = true → r.totalUses e = 2

/-- The values of a lowered procedure are used in place, whatever the script. -/
theorem usedInPlace_of_lower {s : Script} {p : Procedure} (h : s.lower = .ok p) :
    ∃ value call release trees, UsedInPlace s p value call release trees := by
  obtain ⟨nodes, exit, haccounts⟩ := exists_scriptAccounts h
  have hp := stretches_of_lower h
  have hbuilt := built_of_lower h
  have hwalk := hbuilt.wellFormed.toWalkable
  have hshares := hbuilt.sharesOnce
  obtain ⟨trees, shown, hmapM, htrees⟩ := hp.exists_trees (haccounts.releasesLate hp)
    hwalk.operandsPrecede (Nat.le_refl _)
  have houtlines := Procedure.outlines_eq_some hmapM
  have hvisits := hwalk.isVisits_of_outlines houtlines
  have hcount : ∀ {e : ExprId}, e < p.arena.size → (visitsFrom 0 trees).count (.expr e) =
      p.arena.places e + p.arena.literalReleases e :=
    fun he => hvisits.unique hwalk.operandsPrecede (Stretches.isVisits hp) _ he
  have htwice : ∀ {e : ExprId}, p.arena.isShared e = true →
      (visitsFrom 0 trees).count (.expr e) = 2 := by
    intro e he
    obtain ⟨x, hx⟩ := exists_of_isShared he
    have hliteral : p.arena.isLiteral e = false := by
      rw [isLiteral, hx]
      rfl
    rw [hcount (lt_size_of_get? hx), places, he, if_pos rfl,
      literalReleases_eq_zero fun u hu => by rw [hliteral] at hu; cases hu]
  have hplace : ∀ e, p.arena.isShared e = true → IsComputedInPlace trees e := fun e he =>
    htrees.isComputedInPlace he ((count_visitsFrom e 0 trees).symm.trans (htwice he))
  refine ⟨fun π => (nodes π).value, fun π => (nodes π).call,
    ScriptAccounts.releaseNode nodes exit, trees, ?_⟩
  constructor
  case value_injOn => exact haccounts.accounts.value_injOn
  case call_node =>
    intro π name mask isAsync args he
    exact ((haccounts.accounts.stands he).call rfl).2.2
  case outlines_eq => exact houtlines
  case walk_eq => rw [p.walk_eq_outlines, houtlines, Option.map_some]
  case visited_twice =>
    rintro e (he | he)
    · exact htwice he
    · obtain ⟨n, hn, hliteral⟩ := exists_of_isLiteral he.1
      rw [hcount (lt_size_of_get? hn), haccounts.literalReleases_borrowed hshares he, places,
        isShared_eq hn, Node.isShared_of_isLiteral hliteral, if_neg Bool.false_ne_true]
  case visited_once =>
    intro e he hshared hnot
    rw [hcount he, haccounts.literalReleases_other hshares hnot, places, hshared,
      if_neg Bool.false_ne_true]
  case shared_in_place => exact hplace
  case jump_lands =>
    intro r hr i l hl
    obtain ⟨k, hk, hlabel⟩ := Procedure.exists_placement_of_link hbuilt.labelsNamed hr hl
    rw [← Array.getElem?_toList] at hlabel
    exact ⟨k, hk, getElem?_outlineStmts_of_none hmapM hlabel rfl⟩
  case computed_first =>
    intro run before after r hrun hshared henters
    exact (hplace r.node hshared).exists_passed henters hrun
  case totalUses_eq =>
    intro r hr e he
    rw [hwalk.totalUses_eq hr hvisits, if_pos he, htwice he]

/-- A call borrows the result of another one, and a literal. -/
def borrowedResult : Script where
  header := {}
  cells := []
  body := [.expr (.call "f" 3 false [.call "g" 0 false [], .num 1])]

def borrowedResultLowered : Procedure where
  id := 0
  arena := ⟨#[.runtimeCall "g" false [], .literal (.int 1), .shared 0, .release 2, .release 1,
    .runtimeCall "f" false [2, 1], .shared 5, .sequence [6, 3, 4, 6]]⟩
  body := #[.expr 7]

/-- The result is used where it is made and released behind the call, and so is the literal, which
needs no shared node. -/
theorem usedInPlace_borrowedResult : ∃ value call release trees,
    borrowedResult.lower = .ok borrowedResultLowered ∧
    UsedInPlace borrowedResult borrowedResultLowered value call release trees ∧
    (visitsFrom 0 trees).count (.expr 2) = 2 ∧ (visitsFrom 0 trees).count (.expr 1) = 2 ∧
    ∃ r, borrowedResultLowered.link = .ok r ∧ r.totalUses 2 = 2 := by
  have h : borrowedResult.lower = .ok borrowedResultLowered := by rfl
  obtain ⟨value, call, release, trees, hused⟩ := usedInPlace_of_lower h
  have hvalue : value [0, 1] = 1 := by
    obtain ⟨-, ids, hcall, -, hargs⟩ := hused.call_node (π := [0]) rfl
    have hids : ids = [2, 1] := by
      -- The call that is handed two arguments is node 5.
      generalize call [0] = k at hcall
      rcases k with _ | _ | _ | _ | _ | _ | _ | _ | k <;>
        simp [Arena.get?, borrowedResultLowered] at hcall
      exact hcall.symm
    obtain ⟨z, hz, hborrows⟩ := hargs 1 (by decide)
    rw [if_pos (by decide)] at hborrows
    obtain rfl : 1 = z := by simpa [hids] using hz
    rcases hborrows.2 with ⟨hvalue, -⟩ | hshared
    · exact hvalue.symm
    · cases hshared
  have hliteral : IsBorrowedLiteral borrowedResult borrowedResultLowered value 1 :=
    ⟨by decide, [0], 1, ⟨_, rfl, by decide, by decide⟩, hvalue⟩
  have hwalk := (built_of_lower h).wellFormed.toWalkable
  obtain ⟨uses, -, huses, -⟩ := hwalk.exists_sharedUses
  have hlink := Procedure.link_eq_ok.mpr ⟨#[], #[none], uses, rfl, rfl, huses, rfl⟩
  exact ⟨value, call, release, trees, h, hused, hused.visited_twice 2 (Or.inl rfl),
    hused.visited_twice 1 (Or.inr hliteral), _, hlink, hused.totalUses_eq _ hlink 2 rfl⟩

end Script

end StackIR
