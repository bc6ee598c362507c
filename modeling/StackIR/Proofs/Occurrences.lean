import Mathlib.Data.Set.Function
import StackIR.Proofs.Declaring
import StackIR.Proofs.Releases

/-!
# The parts of expressions and their nodes

The parts of the expressions of a script go by the path to them. `Accounts` assigns nodes to the
parts in a stretch of the arena: a counted load is the one that retains, and a borrowing call has a
release for each argument it borrows. Parts of different operands stand in different stretches, so
an account of the whole is put together from accounts of the operands (`Accounts.of_operands`).
-/

namespace StackIR.Script

/-- The way to a part of an expression: positions of operands, from the outside in. -/
abbrev Path := List Nat

namespace Expr

/-- The expressions that an expression is made of, in the order they are evaluated. -/
def operands : Expr → List Expr
  | .call _ _ _ args | .procCall _ _ args => args
  | .field e _ => [e]
  | .sequence items => items
  | .num _ | .bool _ | .pointer .. | .load _ | .jumpValue => []

/-- The part of an expression that a path leads to. -/
def at? : Expr → Path → Option Expr
  | e, [] => some e
  | e, i :: π => (e.operands[i]?).bind fun e' => e'.at? π

theorem at?_nil (e : Expr) : e.at? [] = some e := by
  rw [at?]

theorem at?_cons (e : Expr) (i : Nat) (π : Path) :
    e.at? (i :: π) = (e.operands[i]?).bind fun e' => e'.at? π := by
  rw [at?]

theorem at?_append (π ρ : Path) :
    ∀ e : Expr, e.at? (π ++ ρ) = (e.at? π).bind fun e' => e'.at? ρ := by
  induction π with
  | nil => exact fun e => by rw [at?_nil, Option.bind_some, List.nil_append]
  | cons i π ih =>
      intro e
      rw [List.cons_append, at?_cons, at?_cons, Option.bind_assoc]
      exact congrArg _ (funext ih)

/-- Whether an expression reads a counted cell, so that its value is retained. -/
def IsCountedLoad (named : String → Option Cell) : Expr → Prop
  | .load name => ∃ c, named name = some c ∧ c.refCounted = true
  | _ => False

/-- Whether an expression is a call that only borrows its argument at a position. The mask has no
bits behind its 32. -/
def Borrows : Expr → Nat → Prop
  | .call _ mask _ args, i => i < args.length ∧ mask.getLsbD i = true
  | _, _ => False

end Expr

/-! ## Accounts -/

/-- The nodes that a part of an expression comes to: that of its value and, if it is a call, that of
the call itself and the releases due after it. -/
structure PartNodes where
  value : ExprId
  call : ExprId := 0
  release : Nat → ExprId := fun _ => 0

/-- The nodes of a part are what they have to be and stand in a stretch of the arena. -/
structure Stands (named : String → Option Cell) (c : Arena) (lo hi : Nat) (e : Expr)
    (nodes : PartNodes) (operand : Nat → ExprId) : Prop where
  le : lo ≤ nodes.value
  lt : nodes.value < hi
  notShared : c.isShared nodes.value = false
  retain : e.IsCountedLoad named → ∃ x, c.get? nodes.value = some (.retain x)
  call : ∀ {name : String} {mask : BitVec 32} {isAsync : Bool} {args : List Expr},
    e = .call name mask isAsync args → lo ≤ nodes.call ∧ nodes.call < hi ∧
      c.YieldsCall nodes.value nodes.call ∧
        c.IsBorrowingCall nodes.call name mask isAsync args.length operand nodes.release

/-- What retains or releases at a position is a counted load or a borrowed argument of `e`. -/
def CountsOnly (named : String → Option Cell) (c : Arena) (e : Option Expr) (nodes : PartNodes)
    (k : Nat) : Prop :=
  ∀ x : ExprId,
    (c.get? k = some (.retain x) → ∃ e', e = some e' ∧ e'.IsCountedLoad named ∧
      nodes.value = k) ∧
    (c.get? k = some (.release x) → ∃ e' i, e = some e' ∧ e'.Borrows i ∧ nodes.release i = k)

/-- The nodes of the parts that paths lead to, in a stretch of the arena. No two parts share their
node, and nothing else of the stretch retains, or releases unless it is one of the `other`s. -/
structure Accounts (named : String → Option Cell) (c : Arena) (at? : Path → Option Expr)
    (other : Nat → Prop) (lo hi : Nat) (nodes : Path → PartNodes) : Prop where
  stands : ∀ {π : Path} {e : Expr}, at? π = some e →
    Stands named c lo hi e (nodes π) fun i => (nodes (π ++ [i])).value
  value_injOn : Set.InjOn (fun π => (nodes π).value) {π | ∃ e, at? π = some e}
  call_injOn : Set.InjOn (fun π => (nodes π).call)
    {π | ∃ name mask isAsync args, at? π = some (.call name mask isAsync args)}
  retain_cases : ∀ {k : Nat} {x : ExprId}, lo ≤ k → k < hi → c.get? k = some (.retain x) →
    ∃ π e, at? π = some e ∧ e.IsCountedLoad named ∧ (nodes π).value = k
  release_cases : ∀ {k : Nat} {x : ExprId}, lo ≤ k → k < hi → c.get? k = some (.release x) →
    (∃ π e i, at? π = some e ∧ e.Borrows i ∧ (nodes π).release i = k) ∨ other k

theorem Stands.mono {named : String → Option Cell} {c : Arena} {lo hi lo' hi' : Nat} {e : Expr}
    {nodes : PartNodes} {operand : Nat → ExprId} (h : Stands named c lo hi e nodes operand)
    (hlo : lo' ≤ lo) (hhi : hi ≤ hi') : Stands named c lo' hi' e nodes operand where
  le := Nat.le_trans hlo h.le
  lt := Nat.lt_of_lt_of_le h.lt hhi
  notShared := h.notShared
  retain := h.retain
  call hcall := by
    obtain ⟨hle, hlt, hborrowing⟩ := h.call hcall
    exact ⟨Nat.le_trans hlo hle, Nat.lt_of_lt_of_le hlt hhi, hborrowing⟩

/-- Nodes that neither retain nor release do not have to be accounted for. -/
theorem Accounts.extend {named : String → Option Cell} {c : Arena} {at? : Path → Option Expr}
    {other : Nat → Prop} {lo mid hi : Nat} {nodes : Path → PartNodes}
    (h : Accounts named c at? other lo mid nodes) (hmid : mid ≤ hi)
    (hquiet : c.CountsNothing mid hi) : Accounts named c at? other lo hi nodes where
  stands hπ := (h.stands hπ).mono (Nat.le_refl lo) hmid
  value_injOn := h.value_injOn
  call_injOn := h.call_injOn
  retain_cases {k x} hlo hhi hk := by
    by_cases hlt : k < mid
    · exact h.retain_cases hlo hlt hk
    · exact absurd hk (hquiet k (by omega) hhi x).1
  release_cases {k x} hlo hhi hk := by
    by_cases hlt : k < mid
    · exact h.release_cases hlo hlt hk
    · exact absurd hk (hquiet k (by omega) hhi x).2

theorem Accounts.imp_other {named : String → Option Cell} {c : Arena} {at? : Path → Option Expr}
    {other other' : Nat → Prop} {lo hi : Nat} {nodes : Path → PartNodes}
    (h : Accounts named c at? other lo hi nodes) (hother : ∀ k, other k → other' k) :
    Accounts named c at? other' lo hi nodes :=
  { h with release_cases := fun hlo hhi hk => (h.release_cases hlo hhi hk).imp_right (hother _) }

/-! ## Putting accounts together -/

section Stretches

variable {cut : Nat → Nat} {n : Nat}

theorem cut_le (hcut : ∀ i, i < n → cut i ≤ cut (i + 1)) {i j : Nat} (hij : i ≤ j) (hj : j ≤ n) :
    cut i ≤ cut j := by
  induction j, hij using Nat.le_induction with
  | base => exact Nat.le_refl _
  | succ j hij ih => exact Nat.le_trans (ih (by omega)) (hcut j (by omega))

theorem exists_stretch {k : Nat} (hlo : cut 0 ≤ k) (hhi : k < cut n) :
    ∃ i, i < n ∧ cut i ≤ k ∧ k < cut (i + 1) := by
  induction n with
  | zero => omega
  | succ n ih =>
      by_cases hk : k < cut n
      · obtain ⟨i, hi, hstretch⟩ := ih hk
        exact ⟨i, by omega, hstretch⟩
      · exact ⟨n, by omega, by omega, hhi⟩

theorem stretch_unique (hcut : ∀ i, i < n → cut i ≤ cut (i + 1)) {i j k : Nat} (hi : i < n)
    (hj : j < n) (hik : cut i ≤ k ∧ k < cut (i + 1)) (hjk : cut j ≤ k ∧ k < cut (j + 1)) :
    i = j := by
  rcases Nat.lt_trichotomy i j with hlt | heq | hgt
  · have hle : cut (i + 1) ≤ cut j := cut_le hcut hlt (Nat.le_of_lt hj)
    omega
  · exact heq
  · have hle : cut (j + 1) ≤ cut i := cut_le hcut hgt (Nat.le_of_lt hi)
    omega

/-- What is injective on each operand is injective on the whole, as each operand has a stretch of
its own and the whole stands behind them. -/
theorem injOn_paths {f : Path → Nat} {S : Set Path}
    (hcut : ∀ i, i < n → cut i ≤ cut (i + 1)) (hroot : [] ∈ S → cut n ≤ f [])
    (hpart : ∀ i π, i :: π ∈ S → i < n ∧ cut i ≤ f (i :: π) ∧ f (i :: π) < cut (i + 1))
    (hinj : ∀ i, i < n → Set.InjOn (fun π => f (i :: π)) {π | i :: π ∈ S}) : Set.InjOn f S := by
  have hbefore : ∀ i π, i :: π ∈ S → f (i :: π) < cut n := fun i π h =>
    Nat.lt_of_lt_of_le (hpart i π h).2.2 (cut_le hcut (hpart i π h).1 (Nat.le_refl n))
  intro π hπ ρ hρ heq
  cases π with
  | nil =>
      cases ρ with
      | nil => rfl
      | cons j ρ =>
          have hlt := hbefore j ρ hρ
          have hle := hroot hπ
          omega
  | cons i π =>
      cases ρ with
      | nil =>
          have hlt := hbefore i π hπ
          have hle := hroot hρ
          omega
      | cons j ρ =>
          obtain ⟨hi, hik⟩ := hpart i π hπ
          obtain ⟨hj, hjk⟩ := hpart j ρ hρ
          rw [heq] at hik
          obtain rfl := stretch_unique hcut hi hj hik hjk
          rw [hinj i hi hπ hρ heq]

end Stretches

/-- The nodes of the parts, from those of the whole and those of the parts of each operand. -/
def underRoot (root : PartNodes) (nodes : Nat → Path → PartNodes) : Path → PartNodes
  | [] => root
  | i :: π => nodes i π

/-- An account of operands in consecutive stretches and of what stands behind them. -/
theorem Accounts.of_operands {named : String → Option Cell} {c : Arena} {at? : Path → Option Expr}
    {other : Nat → Nat → Prop} {cut : Nat → Nat} {n hi : Nat} {root : PartNodes}
    {nodes : Nat → Path → PartNodes} (hcut : ∀ i, i < n → cut i ≤ cut (i + 1)) (hhi : cut n ≤ hi)
    (hoperands : ∀ i, i < n →
      Accounts named c (fun π => at? (i :: π)) (other i) (cut i) (cut (i + 1)) (nodes i))
    (hnone : ∀ i π e, at? (i :: π) = some e → i < n)
    (hroot : ∀ e, at? [] = some e →
      Stands named c (cut n) hi e root fun i => (nodes i []).value)
    (hcounts : ∀ k, cut n ≤ k → k < hi → CountsOnly named c (at? []) root k) :
    Accounts named c at? (fun k => ∃ i, i < n ∧ other i k) (cut 0) hi (underRoot root nodes) where
  stands {π e} hπ := by
    cases π with
    | nil => exact (hroot e hπ).mono (cut_le hcut (Nat.zero_le n) (Nat.le_refl n)) (Nat.le_refl hi)
    | cons i π =>
        have hi := hnone i π e hπ
        exact ((hoperands i hi).stands hπ).mono (cut_le hcut (Nat.zero_le i) (Nat.le_of_lt hi))
          (Nat.le_trans (cut_le hcut hi (Nat.le_refl n)) hhi)
  value_injOn := by
    refine injOn_paths hcut ?_ ?_ fun i hi => (hoperands i hi).value_injOn
    · rintro ⟨e, he⟩
      exact (hroot e he).le
    · rintro i π ⟨e, he⟩
      have hi := hnone i π e he
      exact ⟨hi, ((hoperands i hi).stands he).le, ((hoperands i hi).stands he).lt⟩
  call_injOn := by
    refine injOn_paths hcut ?_ ?_ fun i hi => (hoperands i hi).call_injOn
    · rintro ⟨_, _, _, _, he⟩
      exact ((hroot _ he).call rfl).1
    · rintro i π ⟨_, _, _, _, he⟩
      have hi := hnone i π _ he
      obtain ⟨hle, hlt, -⟩ := ((hoperands i hi).stands he).call rfl
      exact ⟨hi, hle, hlt⟩
  retain_cases {k x} hlo hk hx := by
    by_cases hlt : k < cut n
    · obtain ⟨i, hi, hle, hlt⟩ := exists_stretch hlo hlt
      obtain ⟨π, e, hπ, he, hval⟩ := (hoperands i hi).retain_cases hle hlt hx
      exact ⟨i :: π, e, hπ, he, hval⟩
    · obtain ⟨e, he, hload, hval⟩ := (hcounts k (by omega) hk x).1 hx
      exact ⟨[], e, he, hload, hval⟩
  release_cases {k x} hlo hk hx := by
    by_cases hlt : k < cut n
    · obtain ⟨i, hi, hle, hlt⟩ := exists_stretch hlo hlt
      rcases (hoperands i hi).release_cases hle hlt hx with ⟨π, e, j, hπ, he, hrel⟩ | hother
      · exact Or.inl ⟨i :: π, e, j, hπ, he, hrel⟩
      · exact Or.inr ⟨i, hi, hother⟩
    · obtain ⟨e, i, he, hborrows, hrel⟩ := (hcounts k (by omega) hk x).2 hx
      exact Or.inl ⟨[], e, i, he, hborrows, hrel⟩

end StackIR.Script
