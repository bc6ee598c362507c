import Mathlib.Data.List.Forall2
import Mathlib.Data.List.Induction
import StackIR.Linkage

/-!
# What linking finds

The placements of a body are a table that holds, for each label, the statement that places it
(`Places`), and there is one unless a statement places a label that was never made or one that an
earlier statement placed (`PlacementError`). The lemmas speak of a list of statements, so that they
can be proved by adding one statement at the end.
-/

namespace StackIR

def Stmt.label? : Stmt → Option LabelId
  | .label l => some l
  | _ => none

def Stmt.target? : Stmt → Option Target
  | .jump target _ _ => some target
  | _ => none

@[simp] theorem Stmt.label?_eq_some {s : Stmt} {l : LabelId} :
    s.label? = some l ↔ s = .label l := by
  cases s <;> simp [label?]

/-! ## Lists of checks -/

section Checks

variable {ε α β : Type}

theorem mapM_eq_ok {f : α → Except ε β} {xs : List α} {ys : List β} :
    xs.mapM f = .ok ys ↔ List.Forall₂ (fun x y => f x = .ok y) xs ys := by
  induction xs generalizing ys with
  | nil => cases ys <;> simp [pure, Except.pure]
  | cons x xs ih =>
      rw [List.mapM_cons]
      cases hx : f x with
      | error error => cases ys <;> simp [hx, bind, Except.bind]
      | ok y =>
          cases hxs : xs.mapM f with
          | error error => cases ys <;> simp [hx, hxs, bind, Except.bind, ← ih]
          | ok zs => cases ys <;> simp [hx, hxs, bind, Except.bind, pure, Except.pure, ← ih]

theorem exists_of_mapM_eq_error {f : α → Except ε β} {xs : List α} {error : ε}
    (h : xs.mapM f = .error error) : ∃ x ∈ xs, f x = .error error := by
  induction xs with
  | nil => cases h
  | cons x xs ih =>
      rw [List.mapM_cons] at h
      cases hx : f x with
      | error error' =>
          simp only [hx, bind, Except.bind, Except.error.injEq] at h
          exact ⟨x, List.mem_cons_self, h ▸ hx⟩
      | ok y =>
          cases hxs : xs.mapM f with
          | error error' =>
              simp only [hx, hxs, bind, Except.bind, Except.error.injEq] at h
              obtain ⟨z, hz, hfz⟩ := ih (h ▸ hxs)
              exact ⟨z, List.mem_cons_of_mem _ hz, hfz⟩
          | ok ys => simp [hx, hxs, bind, Except.bind, pure, Except.pure] at h

end Checks

theorem getElem?_concat_eq_some {α : Type} {xs : List α} {x y : α} {i : Nat} :
    (xs ++ [x])[i]? = some y ↔ xs[i]? = some y ∨ i = xs.length ∧ x = y := by
  rw [List.getElem?_append]
  split
  next hlt =>
      have hne : i ≠ xs.length := Nat.ne_of_lt hlt
      simp [hne]
  next hge =>
      rw [List.getElem?_eq_none (Nat.le_of_not_lt hge), List.getElem?_singleton]
      have heq : i - xs.length = 0 ↔ i = xs.length := by omega
      simp [heq]

namespace Procedure

variable {p : Procedure}

/-! ## Placements -/

/-- The table holds the statement that places each of `n` labels. -/
structure Places (n : Nat) (ss : List Stmt) (placed : Array (Option Nat)) : Prop where
  size_eq : placed.size = n
  eq_some_iff : ∀ l i : Nat, placed[l]? = some (some i) ↔ ss[i]? = some (Stmt.label l)

/-- Why some statement cannot be entered into the placements of those before it. -/
inductive PlacementError (p : Procedure) (ss : List Stmt) : LinkError → Prop where
  | unknown {l : LabelId} {i : Nat} (hi : ss[i]? = some (Stmt.label l))
      (hl : p.labels.size ≤ l) : PlacementError p ss (.unknownLabel l i)
  | duplicate {l : LabelId} {i j : Nat} (hi : ss[i]? = some (Stmt.label l))
      (hj : ss[j]? = some (Stmt.label l)) (hlt : j < i) :
      PlacementError p ss (.duplicateLabel (p.labelName l) i)

theorem PlacementError.append {ss : List Stmt} {error : LinkError}
    (h : p.PlacementError ss error) (ts : List Stmt) : p.PlacementError (ss ++ ts) error := by
  have hmem : ∀ {i : Nat} {s : Stmt}, ss[i]? = some s → (ss ++ ts)[i]? = some s :=
    fun {i s} hi => by rw [List.getElem?_append_left (List.getElem?_eq_some_iff.mp hi).1, hi]
  cases h with
  | unknown hi hl => exact .unknown (hmem hi) hl
  | duplicate hi hj hlt => exact .duplicate (hmem hi) (hmem hj) hlt

namespace Places

variable {n : Nat} {ss : List Stmt} {placed : Array (Option Nat)}

theorem lt (h : Places n ss placed) {l : LabelId} {i : Nat}
    (hi : ss[i]? = some (Stmt.label l)) : l < n := by
  have hl := (Array.getElem?_eq_some_iff.mp ((h.eq_some_iff l i).mpr hi)).1
  rwa [h.size_eq] at hl

theorem unique (h : Places n ss placed) {l : LabelId} {i j : Nat}
    (hi : ss[i]? = some (Stmt.label l)) (hj : ss[j]? = some (Stmt.label l)) : i = j := by
  have hij := ((h.eq_some_iff l i).mpr hi).symm.trans ((h.eq_some_iff l j).mpr hj)
  exact Option.some.inj (Option.some.inj hij)

theorem nil (n : Nat) : Places n [] (Array.replicate n none) where
  size_eq := Array.size_replicate
  eq_some_iff l i := by
    rw [Array.getElem?_replicate]
    split <;> simp

theorem concat_of_none (h : Places n ss placed) {s : Stmt} (hs : s.label? = none) :
    Places n (ss ++ [s]) placed where
  size_eq := h.size_eq
  eq_some_iff l i := by
    have hne : s ≠ .label l := fun hl => by simp [hl, Stmt.label?] at hs
    rw [h.eq_some_iff, getElem?_concat_eq_some]
    simp [hne]

theorem concat_label (h : Places n ss placed) {l : LabelId} (hl : placed[l]? = some none) :
    Places n (ss ++ [.label l]) (placed.set! l (some ss.length)) where
  size_eq := by rw [Array.set!_eq_setIfInBounds, Array.size_setIfInBounds, h.size_eq]
  eq_some_iff k i := by
    have hlt := (Array.getElem?_eq_some_iff.mp hl).1
    rw [getElem?_concat_eq_some, Array.set!_eq_setIfInBounds, Array.getElem?_setIfInBounds]
    by_cases hkl : l = k
    · subst hkl
      have hnot : ss[i]? ≠ some (Stmt.label l) := fun hi => by
        rw [← h.eq_some_iff, hl] at hi
        cases hi
      simp [hlt, hnot, eq_comm]
    · rw [if_neg hkl, h.eq_some_iff]
      simp [hkl]

end Places

/-- Entering one more statement keeps the table right, or the statement has an error. -/
theorem placeLabel_spec {ss : List Stmt} {placed : Array (Option Nat)}
    (h : Places p.labels.size ss placed) (s : Stmt) :
    (∃ placed', p.placeLabel placed (s, ss.length) = .ok placed' ∧
      Places p.labels.size (ss ++ [s]) placed') ∨
    ∃ error, p.placeLabel placed (s, ss.length) = .error error ∧
      p.PlacementError (ss ++ [s]) error := by
  cases hlabel : s.label? with
  | none =>
      refine Or.inl ⟨placed, ?_, h.concat_of_none hlabel⟩
      cases s with
      | label l => cases hlabel
      | _ => rfl
  | some l =>
      obtain rfl := Stmt.label?_eq_some.mp hlabel
      have hlast : (ss ++ [Stmt.label l])[ss.length]? = some (Stmt.label l) := by simp
      cases hl : placed[l]? with
      | none =>
          have hsize := Array.getElem?_eq_none_iff.mp hl
          rw [h.size_eq] at hsize
          exact Or.inr ⟨.unknownLabel l ss.length, by simp only [placeLabel, hl],
            .unknown hlast hsize⟩
      | some at? =>
          cases at? with
          | none =>
              exact Or.inl ⟨placed.set! l (some ss.length), by simp only [placeLabel, hl],
                h.concat_label hl⟩
          | some j =>
              have hj := (h.eq_some_iff l j).mp hl
              have hlt := (List.getElem?_eq_some_iff.mp hj).1
              exact Or.inr ⟨.duplicateLabel (p.labelName l) ss.length,
                by simp only [placeLabel, hl],
                .duplicate hlast (getElem?_concat_eq_some.mpr (Or.inl hj)) hlt⟩

/-- Entering statements from the first on yields the right table, or some statement has an error. -/
theorem foldlM_placeLabel_spec (ss : List Stmt) :
    (∃ placed, ss.zipIdx.foldlM p.placeLabel (Array.replicate p.labels.size none) = .ok placed ∧
      Places p.labels.size ss placed) ∨
    ∃ error, ss.zipIdx.foldlM p.placeLabel (Array.replicate p.labels.size none) = .error error ∧
      p.PlacementError ss error := by
  induction ss using List.reverseRecOn with
  | nil => exact Or.inl ⟨_, rfl, Places.nil _⟩
  | append_singleton ss s ih =>
      rw [List.zipIdx_append, List.foldlM_append]
      rcases ih with ⟨placed, hfold, hplaces⟩ | ⟨error, hfold, herror⟩
      · rw [hfold]
        rcases placeLabel_spec hplaces s with ⟨placed', hs, hplaces'⟩ | ⟨error, hs, herror⟩
        · exact Or.inl ⟨placed', by simp [bind, Except.bind, hs, pure, Except.pure], hplaces'⟩
        · exact Or.inr ⟨error, by simp [bind, Except.bind, hs], herror⟩
      · rw [hfold]
        exact Or.inr ⟨error, rfl, herror.append [s]⟩

theorem placements_spec (p : Procedure) :
    (∃ placed, p.placements = .ok placed ∧ Places p.labels.size p.body.toList placed) ∨
      ∃ error, p.placements = .error error ∧ p.PlacementError p.body.toList error :=
  foldlM_placeLabel_spec p.body.toList

theorem places_of_placements {placed : Array (Option Nat)} (h : p.placements = .ok placed) :
    Places p.labels.size p.body.toList placed := by
  rcases p.placements_spec with ⟨placed', h', hplaces⟩ | ⟨error, h', -⟩
  · rw [h'] at h
    exact Except.ok.inj h ▸ hplaces
  · rw [h'] at h
    cases h

/-- Where every label placed was made and none is placed twice, the placements are found. -/
theorem placements_eq_ok
    (hlt : ∀ (i : Nat) (l : LabelId), p.body.toList[i]? = some (Stmt.label l) → l < p.labels.size)
    (hunique : ∀ (i j : Nat) (l : LabelId), p.body.toList[i]? = some (Stmt.label l) →
      p.body.toList[j]? = some (Stmt.label l) → i = j) :
    ∃ placed, p.placements = .ok placed ∧ Places p.labels.size p.body.toList placed := by
  rcases p.placements_spec with hok | ⟨error, -, herror⟩
  · exact hok
  · cases herror with
    | unknown hi hl => exact absurd (hlt _ _ hi) (Nat.not_lt.mpr hl)
    | duplicate hi hj hji => exact absurd (hunique _ _ _ hj hi) (Nat.ne_of_lt hji)

/-! ## Jumps -/

/-- A jump by handle finds its label where the label is placed. -/
theorem findTarget_label_eq_ok {placed : Array (Option Nat)}
    (h : Places p.labels.size p.body.toList placed) {byName : Std.HashMap String LabelId} {i : Nat}
    {l h' : LabelId} :
    p.findTarget placed byName i (.label l) = .ok h' ↔
      h' = l ∧ ∃ j : Nat, p.body.toList[j]? = some (Stmt.label l) := by
  simp only [← h.eq_some_iff]
  unfold findTarget
  cases hl : placed[l]? with
  | none => simp [hl]
  | some at? => cases at? <;> simp [hl, eq_comm]

theorem findStmtTarget_label_eq_ok {placed : Array (Option Nat)}
    (h : Places p.labels.size p.body.toList placed) {byName : Std.HashMap String LabelId} {i : Nat}
    {l : LabelId} {mode : JumpMode} {value : Option ExprId} {target? : Option LabelId} :
    p.findStmtTarget placed byName (.jump (.label l) mode value, i) = .ok target? ↔
      target? = some l ∧ ∃ j : Nat, p.body.toList[j]? = some (Stmt.label l) := by
  show some <$> p.findTarget placed byName i (.label l) = .ok target? ↔ _
  cases htarget : p.findTarget placed byName i (.label l) with
  | ok k =>
      obtain ⟨rfl, hplaced⟩ := (findTarget_label_eq_ok h).mp htarget
      simp only [Functor.map, Except.map, Except.ok.injEq, hplaced, and_true]
      exact eq_comm
  | error error =>
      have hnone : ¬∃ j : Nat, p.body.toList[j]? = some (Stmt.label l) := fun hplaced => by
        rw [(findTarget_label_eq_ok h).mpr ⟨rfl, hplaced⟩] at htarget
        cases htarget
      simp only [Functor.map, Except.map, hnone, and_false, iff_false]
      exact nofun

/-- A jump by handle finds no label where the label, though made, is placed nowhere. -/
theorem findStmtTarget_label_eq_error {placed : Array (Option Nat)} {error : LinkError}
    (h : Places p.labels.size p.body.toList placed) {byName : Std.HashMap String LabelId} {i : Nat}
    {l : LabelId} {mode : JumpMode} {value : Option ExprId} (hl : l < p.labels.size)
    (herror : p.findStmtTarget placed byName (.jump (.label l) mode value, i) = .error error) :
    error = .undefinedLabel (p.labelName l) i ∧
      ∀ j : Nat, p.body.toList[j]? ≠ some (Stmt.label l) := by
  simp only [ne_eq, ← h.eq_some_iff]
  have hlt : l < placed.size := by rwa [h.size_eq]
  obtain ⟨at?, hat⟩ : ∃ at?, placed[l]? = some at? := ⟨_, Array.getElem?_eq_getElem hlt⟩
  rw [hat]
  cases at? with
  | none =>
      simp only [findStmtTarget, findTarget, hat, Functor.map, Except.map] at herror
      exact ⟨(Except.error.inj herror).symm, by simp⟩
  | some j => simp [findStmtTarget, findTarget, hat, Functor.map, Except.map] at herror

theorem findTargets_eq_ok {placed : Array (Option Nat)} {targets : Array (Option LabelId)} :
    p.findTargets placed = .ok targets ↔
      List.Forall₂
        (fun s target? => p.findStmtTarget placed (p.placedByName placed) s = .ok target?)
        p.body.toList.zipIdx targets.toList := by
  rw [← mapM_eq_ok]
  unfold findTargets
  dsimp only
  cases p.body.toList.zipIdx.mapM (p.findStmtTarget placed (p.placedByName placed)) with
  | error error => simp [Functor.map, Except.map]
  | ok ts =>
      simp only [Functor.map, Except.map, Except.ok.injEq]
      constructor
      · rintro rfl
        rfl
      · rintro rfl
        rfl

theorem getElem?_of_findTargets {placed : Array (Option Nat)} {targets : Array (Option LabelId)}
    (h : p.findTargets placed = .ok targets) {i : Nat} {s : Stmt}
    (hs : p.body.toList[i]? = some s) :
    ∃ target?, targets[i]? = some target? ∧
      p.findStmtTarget placed (p.placedByName placed) (s, i) = .ok target? := by
  have hall := findTargets_eq_ok.mp h
  have hi := (List.getElem?_eq_some_iff.mp hs).1
  have hlen := hall.length_eq
  rw [List.length_zipIdx] at hlen
  have hit : i < targets.size := by
    rw [← Array.length_toList, ← hlen]
    exact hi
  refine ⟨targets[i], Array.getElem?_eq_getElem hit, ?_⟩
  have hget := hall.get (i := i) (by simpa using hi) (by simpa using hit)
  simp only [List.get_eq_getElem, List.getElem_zipIdx, Nat.zero_add, Array.getElem_toList] at hget
  rw [(List.getElem?_eq_some_iff.mp hs).2.symm]
  simpa using hget

theorem size_of_findTargets {placed : Array (Option Nat)} {targets : Array (Option LabelId)}
    (h : p.findTargets placed = .ok targets) : targets.size = p.body.size := by
  have hlen := (findTargets_eq_ok.mp h).length_eq
  rw [List.length_zipIdx] at hlen
  simpa using hlen.symm

theorem exists_of_findTargets_eq_error {placed : Array (Option Nat)} {error : LinkError}
    (h : p.findTargets placed = .error error) :
    ∃ i s, p.body.toList[i]? = some s ∧
      p.findStmtTarget placed (p.placedByName placed) (s, i) = .error error := by
  unfold findTargets at h
  cases hm : p.body.toList.zipIdx.mapM (p.findStmtTarget placed (p.placedByName placed)) with
  | ok ts => simp [hm, Functor.map, Except.map] at h
  | error error' =>
      simp only [hm, Functor.map, Except.map, Except.error.injEq] at h
      obtain ⟨⟨s, i⟩, hmem, hs⟩ := exists_of_mapM_eq_error hm
      exact ⟨i, s, List.mem_zipIdx_iff_getElem?.mp hmem, h ▸ hs⟩

theorem exists_findTargets {placed : Array (Option Nat)}
    (h : ∀ (i : Nat) (s : Stmt), p.body.toList[i]? = some s →
      ∃ target?, p.findStmtTarget placed (p.placedByName placed) (s, i) = .ok target?) :
    ∃ targets, p.findTargets placed = .ok targets := by
  cases htargets : p.findTargets placed with
  | ok targets => exact ⟨targets, rfl⟩
  | error error =>
      obtain ⟨i, s, hs, herror⟩ := exists_of_findTargets_eq_error htargets
      obtain ⟨target?, hok⟩ := h i s hs
      rw [herror] at hok
      cases hok

/-- The incoming jumps of a label are the statements with that target. -/
theorem getElem?_countIncoming (targets : Array (Option LabelId)) {l : LabelId}
    (hl : l < p.labels.size) :
    (p.countIncoming targets)[l]? = some (targets.toList.count (some l)) := by
  have hcount : ∀ (f : Array Nat → Option LabelId → Array Nat), (∀ counts, f counts none = counts) →
      (∀ counts m, f counts (some m) = counts.modify m (· + 1)) →
      ∀ (ts : List (Option LabelId)) (counts : Array Nat) (k : Nat), counts[l]? = some k →
        (ts.foldl f counts)[l]? = some (k + ts.count (some l)) := by
    intro f hnone hsome ts
    induction ts with
    | nil => exact fun _ _ hk => hk
    | cons t ts ih =>
        intro counts k hk
        rw [List.foldl_cons, List.count_cons]
        cases t with
        | none =>
            rw [hnone]
            simpa using ih counts k hk
        | some m =>
            rw [hsome]
            by_cases hml : m = l
            · subst hml
              rw [ih (counts.modify m (· + 1)) (k + 1) (by simp [Array.getElem?_modify, hk])]
              simp only [beq_self_eq_true, if_true]
              congr 1
              omega
            · rw [ih (counts.modify m (· + 1)) k (by simp [Array.getElem?_modify, hml, hk])]
              simp [hml]
  unfold countIncoming
  rw [← Array.foldl_toList]
  refine (hcount _ (fun _ => rfl) (fun _ _ => rfl) targets.toList _ 0 (by simp [hl])).trans ?_
  rw [Nat.zero_add]

/-! ## Linking -/

theorem link_eq_ok {r : LinkedProcedure} :
    p.link = .ok r ↔ ∃ placements targets sharedUses, p.placements = .ok placements ∧
      p.findTargets placements = .ok targets ∧ p.sharedUses? = some sharedUses ∧
        r = { procedure := p, linkage :=
          { placements, targets, incoming := p.countIncoming targets, sharedUses } } := by
  unfold link linkage
  cases p.placements with
  | error error => simp [bind, Except.bind]
  | ok placements =>
      cases htargets : p.findTargets placements with
      | error error => simp [bind, Except.bind, htargets]
      | ok targets =>
          cases p.sharedUses? with
          | none => simp [bind, Except.bind, htargets, throw, throwThe, MonadExceptOf.throw]
          | some uses => simp [bind, Except.bind, htargets, pure, Except.pure, eq_comm]

theorem link_eq_error {error : LinkError} (h : p.link = .error error) :
    p.placements = .error error ∨
      (∃ placements, p.placements = .ok placements ∧ p.findTargets placements = .error error) ∨
        p.sharedUses? = none ∧ error = .danglingOperand := by
  unfold link linkage at h
  cases hplaced : p.placements with
  | error error' =>
      simp only [hplaced, bind, Except.bind, Except.error.injEq] at h
      exact Or.inl (congrArg _ h)
  | ok placements =>
      refine Or.inr ?_
      cases htargets : p.findTargets placements with
      | error error' =>
          simp only [hplaced, htargets, bind, Except.bind, Except.error.injEq] at h
          exact Or.inl ⟨placements, rfl, by rw [htargets, h]⟩
      | ok targets =>
          cases huses : p.sharedUses? with
          | none =>
              simp only [hplaced, htargets, huses, bind, Except.bind, throw, throwThe,
                MonadExceptOf.throw, Except.error.injEq] at h
              exact Or.inr ⟨rfl, h.symm⟩
          | some uses =>
              simp [hplaced, htargets, huses, bind, Except.bind, pure, Except.pure] at h

end Procedure

end StackIR
