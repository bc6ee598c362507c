import Mathlib.Algebra.BigOperators.Group.Finset.Basic
import StackIR.Proofs.LabelNames
import StackIR.Proofs.Visits

/-!
# Linking is exact

A procedure that is built links just in case every label it places was made, none is placed twice,
and every jump, by handle or by name, goes to a label that is placed somewhere in the body
(`Procedure.Linkable`). The tables that linking fills then say of each label and each jump what the
body says, in both directions (`Procedure.LinksExactly`, `linksExactly_of_built`).
-/

namespace StackIR.Procedure

variable {p : Procedure}

/-- A target stands for a label by its handle, or by the name the label was given. -/
def Denotes (p : Procedure) : Target → LabelId → Prop
  | .label k, l => k = l
  | .name name, l => p.labels[l]? = some name

/-- Every label that is placed was made and is placed once, and every jump goes to a label that was
made and is placed, before or behind the jump. -/
structure Linkable (p : Procedure) : Prop where
  made : ∀ (i : Nat) (l : LabelId), p.body[i]? = some (.label l) → l < p.labels.size
  unique : ∀ (i j : Nat) (l : LabelId), p.body[i]? = some (.label l) →
    p.body[j]? = some (.label l) → i = j
  handle_placed : ∀ (i : Nat) (l : LabelId) (mode : JumpMode) (value : Option ExprId),
    p.body[i]? = some (.jump (.label l) mode value) →
      l < p.labels.size ∧ ∃ j : Nat, p.body[j]? = some (.label l)
  name_placed : ∀ (i : Nat) (name : String) (mode : JumpMode) (value : Option ExprId),
    p.body[i]? = some (.jump (.name name) mode value) →
      ∃ l, p.labels[l]? = some name ∧ ∃ j : Nat, p.body[j]? = some (.label l)

/-- What linking found is what the body says, of every label and every statement. -/
structure LinksExactly (p : Procedure) (r : LinkedProcedure) : Prop where
  /-- The statements, expressions, labels and cells stay as they are. -/
  procedure_eq : r.procedure = p
  placement?_eq_some_iff : ∀ (l : LabelId) (i : Nat),
    r.placement? l = some i ↔ p.body[i]? = some (.label l)
  target?_eq_some_iff : ∀ (i : Nat) (l : LabelId), r.target? i = some l ↔
    ∃ target mode value, p.body[i]? = some (.jump target mode value) ∧ p.Denotes target l
  incoming_eq : ∀ l : LabelId,
    r.incoming l = (List.range p.body.size).countP fun i => r.target? i = some l
  /-- Every jump is counted for one label. -/
  sum_incoming : ∑ l ∈ Finset.range p.labels.size, r.incoming l =
    p.body.toList.countP fun s => s.target?.isSome

/-! ## Finding the label of a jump -/

section Targets

variable {placed : Array (Option Nat)}

theorem Places.lt_of_denotes (h : Places p.labels.size p.body.toList placed) {l : LabelId}
    (hplaced : ∃ j : Nat, p.body.toList[j]? = some (Stmt.label l)) : l < p.labels.size := by
  obtain ⟨j, hj⟩ := hplaced
  exact h.lt hj

/-- A jump finds the label its target stands for, where the label is placed. -/
theorem findTarget_eq_ok (h : Places p.labels.size p.body.toList placed)
    (hnamed : p.LabelsNamed) {i : Nat} {target : Target} {l : LabelId} :
    p.findTarget placed (p.placedByName placed) i target = .ok l ↔
      p.Denotes target l ∧ ∃ j : Nat, p.body.toList[j]? = some (Stmt.label l) := by
  cases target with
  | label k =>
      rw [findTarget_label_eq_ok h, Denotes]
      constructor
      · rintro ⟨rfl, hplaced⟩
        exact ⟨rfl, hplaced⟩
      · rintro ⟨rfl, hplaced⟩
        exact ⟨rfl, hplaced⟩
  | name name => exact findTarget_name_eq_ok h hnamed

theorem findTarget_cases (p : Procedure) (placed : Array (Option Nat))
    (byName : Std.HashMap String LabelId) (i : Nat) (target : Target) :
    (∃ l, p.findTarget placed byName i target = .ok l) ∨
      (∃ l, p.findTarget placed byName i target = .error (.unknownLabel l i)) ∨
        ∃ name, p.findTarget placed byName i target = .error (.undefinedLabel name i) := by
  cases target with
  | label l =>
      rcases hl : placed[l]? with _ | _ | j
      · exact Or.inr (Or.inl ⟨l, by simp only [findTarget, hl]⟩)
      · exact Or.inr (Or.inr ⟨p.labelName l, by simp only [findTarget, hl]⟩)
      · exact Or.inl ⟨l, by simp only [findTarget, hl]⟩
  | name name =>
      cases hname : byName[name]? with
      | none => exact Or.inr (Or.inr ⟨name, by simp only [findTarget, hname]⟩)
      | some l => exact Or.inl ⟨l, by simp only [findTarget, hname]⟩

theorem findStmtTarget_jump_eq_ok {byName : Std.HashMap String LabelId} {i : Nat}
    {target : Target} {mode : JumpMode} {value : Option ExprId} {target? : Option LabelId} :
    p.findStmtTarget placed byName (.jump target mode value, i) = .ok target? ↔
      ∃ l, p.findTarget placed byName i target = .ok l ∧ target? = some l := by
  show some <$> p.findTarget placed byName i target = .ok target? ↔ _
  cases p.findTarget placed byName i target with
  | error error => simp [Functor.map, Except.map]
  | ok l => simp [Functor.map, Except.map, eq_comm]

variable {targets : Array (Option LabelId)}

/-- The table of targets has a label for each jump, the one it stands for, and for no other
statement. -/
theorem getElem?_targets_eq_some (h : Places p.labels.size p.body.toList placed)
    (hnamed : p.LabelsNamed) (htargets : p.findTargets placed = .ok targets) {i : Nat}
    {l : LabelId} :
    targets[i]? = some (some l) ↔
      ∃ target mode value, p.body.toList[i]? = some (.jump target mode value) ∧
        p.Denotes target l := by
  constructor
  · intro hi
    have hlt := (Array.getElem?_eq_some_iff.mp hi).1
    rw [size_of_findTargets htargets, ← Array.length_toList] at hlt
    have hs := List.getElem?_eq_getElem hlt
    obtain ⟨target?, hget, hok⟩ := getElem?_of_findTargets htargets hs
    obtain rfl := Option.some.inj (hi.symm.trans hget)
    cases hst : p.body.toList[i] with
    | jump target mode value =>
        rw [hst] at hok hs
        obtain ⟨l', hfind, hl'⟩ := findStmtTarget_jump_eq_ok.mp hok
        obtain rfl := Option.some.inj hl'
        exact ⟨target, mode, value, hs, ((findTarget_eq_ok h hnamed).mp hfind).1⟩
    | _ =>
        rw [hst] at hok
        cases hok
  · rintro ⟨target, mode, value, hs, hdenotes⟩
    obtain ⟨target?, hget, hok⟩ := getElem?_of_findTargets htargets hs
    obtain ⟨l', hfind, rfl⟩ := findStmtTarget_jump_eq_ok.mp hok
    obtain ⟨hdenotes', -⟩ := (findTarget_eq_ok h hnamed).mp hfind
    rw [hget]
    cases target with
    | label k =>
        obtain rfl : k = l := hdenotes
        obtain rfl : k = l' := hdenotes'
        rfl
    | name name => rw [hnamed.injective hdenotes' hdenotes]

/-- A label that a jump finds was made. -/
theorem lt_of_mem_targets (h : Places p.labels.size p.body.toList placed)
    (hnamed : p.LabelsNamed) (htargets : p.findTargets placed = .ok targets) {l : LabelId}
    (hl : some l ∈ targets.toList) : l < p.labels.size := by
  obtain ⟨i, hi⟩ := List.mem_iff_getElem?.mp hl
  rw [Array.getElem?_toList] at hi
  obtain ⟨target, mode, value, hs, -⟩ := (getElem?_targets_eq_some h hnamed htargets).mp hi
  obtain ⟨target?, hget, hok⟩ := getElem?_of_findTargets htargets hs
  obtain rfl := Option.some.inj (hi.symm.trans hget)
  obtain ⟨l', hfind, hl'⟩ := findStmtTarget_jump_eq_ok.mp hok
  obtain rfl := Option.some.inj hl'
  exact h.lt_of_denotes ((findTarget_eq_ok h hnamed).mp hfind).2

end Targets

/-! ## Counting jumps -/

/-- Counting each of the first `n` numbers counts the entries, if these are all below `n`. -/
theorem sum_count_some {n : Nat} {ts : List (Option Nat)} (h : ∀ l, some l ∈ ts → l < n) :
    ∑ l ∈ Finset.range n, ts.count (some l) = ts.countP Option.isSome := by
  induction ts with
  | nil => simp
  | cons t ts ih =>
      have hts := ih fun l hl => h l (List.mem_cons_of_mem _ hl)
      simp only [List.count_cons, Finset.sum_add_distrib, hts, List.countP_cons]
      cases t with
      | none => simp
      | some l =>
          have hl : l ∈ Finset.range n := Finset.mem_range.mpr (h l List.mem_cons_self)
          simp [Finset.mem_range.mp hl]

theorem getD_none_eq_some {α : Type} {xs : Array (Option α)} {i : Nat} {x : α} :
    xs.getD i none = some x ↔ xs[i]? = some (some x) := by
  rw [Array.getD_eq_getD_getElem?]
  cases xs[i]? <;> simp

theorem toList_eq_map_range {α : Type} (xs : Array (Option α)) :
    xs.toList = (List.range xs.size).map fun i => xs.getD i none := by
  refine List.ext_getElem (by simp) fun i hi _ => ?_
  rw [Array.length_toList] at hi
  simp [hi]

/-- A statement has a target in the table just in case it is a jump. -/
theorem countP_isSome_targets {placed : Array (Option Nat)} {targets : Array (Option LabelId)}
    (htargets : p.findTargets placed = .ok targets) :
    targets.toList.countP Option.isSome = p.body.toList.countP fun s => s.target?.isSome := by
  have hcount : ∀ (ss : List Stmt) (k : Nat) (ts : List (Option LabelId)),
      List.Forall₂ (fun s target? => p.findStmtTarget placed (p.placedByName placed) s =
        .ok target?) (ss.zipIdx k) ts →
      ts.countP Option.isSome = ss.countP fun s => s.target?.isSome := by
    intro ss
    induction ss with
    | nil =>
        intro k ts hts
        cases hts
        rfl
    | cons s ss ih =>
        intro k ts hts
        rw [List.zipIdx_cons] at hts
        cases hts with
        | cons hok hts =>
            rw [List.countP_cons, List.countP_cons, ih (k + 1) _ hts]
            cases s with
            | jump target mode value =>
                obtain ⟨l, -, rfl⟩ := findStmtTarget_jump_eq_ok.mp hok
                rfl
            | _ =>
                obtain rfl := Except.ok.inj hok
                rfl
  exact hcount _ 0 _ (findTargets_eq_ok.mp htargets)

theorem size_countIncoming (p : Procedure) (targets : Array (Option LabelId)) :
    (p.countIncoming targets).size = p.labels.size := by
  have hsize : ∀ (f : Array Nat → Option LabelId → Array Nat),
      (∀ counts t, (f counts t).size = counts.size) →
      ∀ (ts : List (Option LabelId)) (counts : Array Nat),
        (ts.foldl f counts).size = counts.size := by
    intro f hf ts
    induction ts with
    | nil => exact fun _ => rfl
    | cons t ts ih => exact fun counts => (ih (f counts t)).trans (hf counts t)
  unfold countIncoming
  rw [← Array.foldl_toList]
  refine (hsize _ (fun counts t => ?_) targets.toList _).trans Array.size_replicate
  cases t with
  | none => rfl
  | some l => exact Array.size_modify

/-! ## Linking -/

/-- Where every walk succeeds, what does not link has an error in a label or a jump. -/
theorem Walkable.link_ne_danglingOperand (hp : p.Walkable) :
    p.link ≠ .error .danglingOperand := by
  intro h
  rcases link_eq_error h with hplaced | ⟨placed, -, htargets⟩ | ⟨huses, -⟩
  · rcases p.placements_spec with ⟨placed, hok, -⟩ | ⟨error, herror, hcases⟩
    · rw [hok] at hplaced
      cases hplaced
    · obtain rfl := Except.error.inj (herror.symm.trans hplaced)
      cases hcases
  · obtain ⟨i, s, -, hs⟩ := exists_of_findTargets_eq_error htargets
    cases s with
    | jump target mode value =>
        rcases findTarget_cases p placed (p.placedByName placed) i target with
          ⟨l, hfind⟩ | ⟨l, hfind⟩ | ⟨name, hfind⟩ <;>
          simp [findStmtTarget, hfind, Functor.map, Except.map] at hs
    | _ => cases hs
  · obtain ⟨uses, -, huses', -⟩ := hp.exists_sharedUses
    rw [huses] at huses'
    cases huses'

/-- Where the procedure is linkable, the labels are all found. -/
theorem Linkable.exists_link (h : p.Linkable) (hwalk : p.Walkable) (hnamed : p.LabelsNamed) :
    ∃ r, p.link = .ok r := by
  obtain ⟨placed, hplaced, hplaces⟩ := placements_eq_ok
    (fun i l hi => h.made i l (by simpa using hi))
    (fun i j l hi hj => h.unique i j l (by simpa using hi) (by simpa using hj))
  have hfind : ∀ (i : Nat) (s : Stmt), p.body.toList[i]? = some s →
      ∃ target?, p.findStmtTarget placed (p.placedByName placed) (s, i) = .ok target? := by
    intro i s hi
    rw [Array.getElem?_toList] at hi
    cases s with
    | jump target mode value =>
        obtain ⟨l, hl⟩ : ∃ l, p.Denotes target l ∧
            ∃ j : Nat, p.body.toList[j]? = some (Stmt.label l) := by
          simp only [Array.getElem?_toList]
          cases target with
          | label l => exact ⟨l, rfl, (h.handle_placed i l mode value hi).2⟩
          | name name => exact h.name_placed i name mode value hi
        exact ⟨some l, findStmtTarget_jump_eq_ok.mpr
          ⟨l, (findTarget_eq_ok hplaces hnamed).mpr hl, rfl⟩⟩
    | _ => exact ⟨none, rfl⟩
  obtain ⟨targets, htargets⟩ := exists_findTargets hfind
  obtain ⟨uses, -, huses, -⟩ := hwalk.exists_sharedUses
  exact ⟨_, link_eq_ok.mpr ⟨placed, targets, uses, hplaced, htargets, huses, rfl⟩⟩

theorem linkable_of_link (hnamed : p.LabelsNamed) {r : LinkedProcedure} (hr : p.link = .ok r) :
    p.Linkable := by
  obtain ⟨placed, targets, uses, hplaced, htargets, -, -⟩ := link_eq_ok.mp hr
  have hplaces := places_of_placements hplaced
  have hjump : ∀ (i : Nat) (target : Target) (mode : JumpMode) (value : Option ExprId),
      p.body[i]? = some (.jump target mode value) → ∃ l, p.Denotes target l ∧
        ∃ j : Nat, p.body[j]? = some (.label l) := by
    intro i target mode value hi
    rw [← Array.getElem?_toList] at hi
    obtain ⟨target?, -, hok⟩ := getElem?_of_findTargets htargets hi
    obtain ⟨l, hfind, -⟩ := findStmtTarget_jump_eq_ok.mp hok
    obtain ⟨hdenotes, j, hj⟩ := (findTarget_eq_ok hplaces hnamed).mp hfind
    exact ⟨l, hdenotes, j, by simpa using hj⟩
  refine ⟨fun i l hi => hplaces.lt (by simpa using hi),
    fun i j l hi hj => hplaces.unique (l := l) (by simpa using hi) (by simpa using hj),
    fun i l mode value hi => ?_, fun i name mode value hi => hjump i _ mode value hi⟩
  obtain ⟨k, rfl, j, hj⟩ := hjump i _ mode value hi
  exact ⟨hplaces.lt (i := j) (by simpa using hj), j, hj⟩

theorem linksExactly_of_link (hnamed : p.LabelsNamed) {r : LinkedProcedure}
    (hr : p.link = .ok r) : p.LinksExactly r := by
  obtain ⟨placed, targets, uses, hplaced, htargets, -, rfl⟩ := link_eq_ok.mp hr
  have hplaces := places_of_placements hplaced
  have hincoming : ∀ l : LabelId,
      (p.countIncoming targets).getD l 0 = targets.toList.count (some l) := by
    intro l
    rw [Array.getD_eq_getD_getElem?]
    rcases Nat.lt_or_ge l p.labels.size with hl | hl
    · rw [getElem?_countIncoming targets hl, Option.getD_some]
    · have hnone : targets.toList.count (some l) = 0 := List.count_eq_zero.mpr fun hmem =>
        Nat.not_lt.mpr hl (lt_of_mem_targets hplaces hnamed htargets hmem)
      rw [hnone, Array.getElem?_eq_none (by rwa [size_countIncoming]), Option.getD_none]
  refine ⟨rfl, fun l i => ?_, fun i l => ?_, fun l => ?_, ?_⟩
  · rw [← Array.getElem?_toList, ← hplaces.eq_some_iff]
    exact getD_none_eq_some
  · refine getD_none_eq_some.trans ((getElem?_targets_eq_some hplaces hnamed htargets).trans ?_)
    simp only [Array.getElem?_toList]
  · refine (hincoming l).trans ?_
    rw [toList_eq_map_range, List.count, List.countP_map, size_of_findTargets htargets]
    refine List.countP_congr fun i _ => ?_
    simp [LinkedProcedure.target?]
  · rw [← countP_isSome_targets htargets, ← sum_count_some fun l hl =>
      lt_of_mem_targets hplaces hnamed htargets hl]
    exact Finset.sum_congr rfl fun l _ => hincoming l

/-- Every jump of a linked procedure has a place to go to. -/
theorem exists_placement_of_link (hnamed : p.LabelsNamed) {r : LinkedProcedure}
    (hr : p.link = .ok r) {i : Nat} {l : LabelId} (hl : r.target? i = some l) :
    ∃ k, r.placement? l = some k ∧ p.body[k]? = some (.label l) := by
  have hlinkable := linkable_of_link hnamed hr
  have hexact := linksExactly_of_link hnamed hr
  obtain ⟨target, mode, value, hi, hdenotes⟩ := (hexact.target?_eq_some_iff i l).mp hl
  have hplaced : ∃ k : Nat, p.body[k]? = some (.label l) := by
    cases target with
    | label m =>
        obtain rfl : m = l := hdenotes
        exact (hlinkable.handle_placed i m mode value hi).2
    | name name =>
        obtain ⟨m, hm, hplaced⟩ := hlinkable.name_placed i name mode value hi
        rwa [← hnamed.injective hm hdenotes]
  obtain ⟨k, hk⟩ := hplaced
  exact ⟨k, (hexact.placement?_eq_some_iff l k).mpr hk, hk⟩

/-- A procedure that is built links exactly when it is linkable, and what linking finds is what its
body says. When it does not link, the error is in a label or a jump. -/
theorem linksExactly_of_built (hp : p.Built) :
    ((∃ r, p.link = .ok r) ↔ p.Linkable) ∧ p.link ≠ .error .danglingOperand ∧
      ∀ r, p.link = .ok r → p.LinksExactly r := by
  have hwalk := hp.wellFormed.toWalkable
  have hnamed := hp.labelsNamed
  exact ⟨⟨fun ⟨r, hr⟩ => linkable_of_link hnamed hr, fun h => h.exists_link hwalk hnamed⟩,
    hwalk.link_ne_danglingOperand, fun r hr => linksExactly_of_link hnamed hr⟩

/-- A jump ahead by the name of a label that is made later, and a jump back by handle. -/
def forwardAndBack : Procedure where
  id := 0
  labels := #[".top.0", ".end.1"]
  body := #[.label 0, .jump (.name ".end.1") .ifZero none, .jump (.label 0) .always none, .label 1]

theorem forwardAndBack_built : forwardAndBack.Built :=
  ⟨0, none, (((((Relation.ReflTransGen.refl.tail (.newLabel "top")).tail
    (.emit (.label 0) (by decide))).tail (.emit (.jump (.name ".end.1") .ifZero none)
      (by decide))).tail (.emit (.jump (.label 0) .always none) (by decide))).tail
        (.newLabel "end")).tail (.emit (.label 1) (by decide))⟩

theorem forwardAndBack_linkable : forwardAndBack.Linkable := by
  have hlabel : ∀ (i : Nat) (l : LabelId), forwardAndBack.body[i]? = some (.label l) →
      (i = 0 ∧ l = 0) ∨ (i = 3 ∧ l = 1) := by
    intro i l hi
    rcases i with _ | _ | _ | _ | i <;> simp [forwardAndBack] at hi ⊢ <;> exact hi.symm
  refine ⟨fun i l hi => ?_, fun i j l hi hj => ?_, fun i l mode value hi => ?_,
    fun i name mode value hi => ?_⟩
  · rcases hlabel i l hi with ⟨-, rfl⟩ | ⟨-, rfl⟩ <;> decide
  · rcases hlabel i l hi with ⟨rfl, rfl⟩ | ⟨rfl, rfl⟩ <;>
      rcases hlabel j _ hj with ⟨rfl, h⟩ | ⟨rfl, h⟩ <;> simp at h ⊢
  · have hl : l = 0 := by
      rcases i with _ | _ | _ | _ | i <;> simp [forwardAndBack] at hi
      exact hi.1.symm
    subst hl
    exact ⟨by decide, 0, rfl⟩
  · have hname : name = ".end.1" := by
      rcases i with _ | _ | _ | _ | i <;> simp [forwardAndBack] at hi
      exact hi.1.symm
    subst hname
    exact ⟨1, rfl, 3, rfl⟩

/-- Both jumps are linked, each to its own label. -/
theorem linksExactly_forwardAndBack : ∃ r, forwardAndBack.link = .ok r ∧
    r.placement? 1 = some 3 ∧ r.target? 1 = some 1 ∧ r.target? 2 = some 0 ∧ r.target? 0 = none ∧
      r.incoming 0 + r.incoming 1 = 2 := by
  obtain ⟨hiff, -, hexact⟩ := linksExactly_of_built forwardAndBack_built
  obtain ⟨r, hr⟩ := hiff.mpr forwardAndBack_linkable
  have h := hexact r hr
  refine ⟨r, hr, (h.placement?_eq_some_iff 1 3).mpr rfl,
    (h.target?_eq_some_iff 1 1).mpr ⟨_, _, _, rfl, rfl⟩,
    (h.target?_eq_some_iff 2 0).mpr ⟨_, _, _, rfl, rfl⟩, ?_, ?_⟩
  · refine Option.eq_none_iff_forall_ne_some.mpr fun l hl => ?_
    obtain ⟨target, mode, value, hs, -⟩ := (h.target?_eq_some_iff 0 l).mp hl
    cases hs
  · exact (Finset.sum_range_succ _ 1).symm.trans h.sum_incoming

end StackIR.Procedure
