import Std.Data.String.ToNat
import StackIR.Proofs.Built
import StackIR.Proofs.Linking
import StackIR.Proofs.Words

/-!
# Labels go by their names

The name of a label ends with its handle, whatever base the label was made from, so no two labels
of a procedure that is built have the same name (`Built.labelName_injective`). A jump may then name
its label instead of giving the handle: the table of the placed labels by name finds the label
exactly where it is placed (`Places.getElem?_placedByName`).
-/

namespace StackIR.Procedure

variable {p q : Procedure}

/-! ## Names -/

/-- Every label has its own handle behind the last dot of its name. -/
def LabelsNamed (p : Procedure) : Prop :=
  ∀ (l : LabelId) (name : String), p.labels[l]? = some name →
    ∃ base : String, name = "." ++ base ++ "." ++ l.repr

/-- A dot that is the last of a text tells what stands behind it. -/
theorem eq_of_append_dot (xs ys : List Char) {ds es : List Char} (hds : '.' ∉ ds)
    (hes : '.' ∉ es) (h : xs ++ '.' :: ds = ys ++ '.' :: es) : ds = es := by
  rcases List.append_eq_append_iff.mp h with ⟨zs, -, hzs⟩ | ⟨zs, -, hzs⟩
  · cases zs with
    | nil => exact (List.cons.inj hzs).2
    | cons z zs =>
        obtain ⟨-, rfl⟩ := List.cons.inj hzs
        exact absurd (List.mem_append_right zs List.mem_cons_self) hds
  · cases zs with
    | nil => exact (List.cons.inj hzs).2.symm
    | cons z zs =>
        obtain ⟨-, rfl⟩ := List.cons.inj hzs
        exact absurd (List.mem_append_right zs List.mem_cons_self) hes

theorem dot_not_mem_repr (n : Nat) : '.' ∉ n.repr.toList := fun h =>
  absurd (isDigit_of_mem_repr h) (by decide)

theorem LabelsNamed.injective (h : p.LabelsNamed) {l l' : LabelId} {name : String}
    (hl : p.labels[l]? = some name) (hl' : p.labels[l']? = some name) : l = l' := by
  obtain ⟨base, hbase⟩ := h l name hl
  obtain ⟨base', hbase'⟩ := h l' name hl'
  have heq := congrArg String.toList (hbase.symm.trans hbase')
  have hdot : ".".toList = ['.'] := rfl
  simp only [String.toList_append, hdot, List.append_assoc, List.singleton_append] at heq
  exact Nat.repr_inj.mp (String.toList_inj.mp (eq_of_append_dot ('.' :: base.toList)
    ('.' :: base'.toList) (dot_not_mem_repr l) (dot_not_mem_repr l') heq))

theorem LabelsNamed.step (h : p.LabelsNamed) (hstep : p.Step q) : q.LabelsNamed := by
  cases hstep with
  | newLabel base =>
      intro l name hl
      simp only [newLabel, Array.getElem?_push] at hl
      split at hl
      next hsize =>
          obtain rfl := Option.some.inj hl
          exact ⟨base, by rw [hsize]⟩
      next => exact h l name hl
  | _ => exact h

theorem Built.labelsNamed (hp : p.Built) : p.LabelsNamed := by
  obtain ⟨id, name, hbuilds⟩ := hp
  induction hbuilds with
  | refl => exact fun l name hl => by simp at hl
  | tail _ hstep ih => exact ih.step hstep

theorem labelName_of_getElem? {l : LabelId} {name : String} (hl : p.labels[l]? = some name) :
    p.labelName l = name := by
  rw [labelName, Array.getD_eq_getD_getElem?, hl, Option.getD_some]

theorem getElem?_labels {l : LabelId} (hl : l < p.labels.size) :
    p.labels[l]? = some (p.labelName l) := by
  have hget := Array.getElem?_eq_getElem hl
  rw [labelName_of_getElem? hget, hget]

/-- No two labels have the same name. -/
theorem Built.labelName_injective (hp : p.Built) {l l' : LabelId} (hl : l < p.labels.size)
    (hl' : l' < p.labels.size) (h : p.labelName l = p.labelName l') : l = l' := by
  have hget := getElem?_labels hl
  rw [h] at hget
  exact hp.labelsNamed.injective hget (getElem?_labels hl')

/-! ## Placed labels by name -/

/-- Where no two entries have the same name, a name is found as the position of its entry, if there
is a second component with it. -/
theorem getElem?_foldl_insert {xs : List (String × Option Nat)}
    (hxs : ∀ (i j : Nat) (name : String) (a b : Option Nat), xs[i]? = some (name, a) →
      xs[j]? = some (name, b) → i = j) (name : String) (l : Nat) :
    (xs.zipIdx.foldl (fun (m : Std.HashMap String LabelId) ((name, at?), l) =>
      if at?.isSome then m.insert name l else m) ∅)[name]? = some l ↔
        ∃ i, xs[l]? = some (name, some i) := by
  induction xs using List.reverseRecOn generalizing l with
  | nil => simp
  | append_singleton xs x ih =>
      obtain ⟨other, at?⟩ := x
      have hinit : ∀ {i : Nat} {y : String × Option Nat}, xs[i]? = some y →
          (xs ++ [(other, at?)])[i]? = some y := fun h => getElem?_concat_eq_some.mpr (Or.inl h)
      have hlast : (xs ++ [(other, at?)])[xs.length]? = some (other, at?) := by simp
      have ih := ih fun i j n a b hi hj => hxs i j n a b (hinit hi) (hinit hj)
      rw [List.zipIdx_append, List.foldl_append]
      simp only [List.zipIdx_singleton, List.foldl_cons, List.foldl_nil, Nat.zero_add,
        getElem?_concat_eq_some]
      cases at? with
      | none => simpa using ih l
      | some k =>
          simp only [Option.isSome_some, if_true]
          rw [Std.HashMap.getElem?_insert]
          by_cases hname : other = name
          · subst hname
            have hno : ∀ i, xs[l]? ≠ some (other, some i) := fun i hi => by
              have heq := hxs l xs.length other _ _ (hinit hi) hlast
              have hlt := (List.getElem?_eq_some_iff.mp hi).1
              omega
            simp [hno, eq_comm]
          · rw [if_neg (by simpa using hname), ih l]
            simp [hname]

section Places

variable {placed : Array (Option Nat)}

/-- A name is found as the handle of the label that has it and is placed. -/
theorem Places.getElem?_placedByName (h : Places p.labels.size p.body.toList placed)
    (hnamed : p.LabelsNamed) {name : String} {l : LabelId} :
    (p.placedByName placed)[name]? = some l ↔
      p.labels[l]? = some name ∧ ∃ i : Nat, p.body.toList[i]? = some (Stmt.label l) := by
  have hzip : ∀ (i : Nat) (n : String) (a : Option Nat),
      (p.labels.zip placed).toList[i]? = some (n, a) ↔
        p.labels[i]? = some n ∧ placed[i]? = some a := fun i n a => by
    rw [Array.getElem?_toList, Array.getElem?_zip_eq_some]
  unfold placedByName
  rw [getElem?_foldl_insert fun i j n a b hi hj =>
    hnamed.injective ((hzip i n a).mp hi).1 ((hzip j n b).mp hj).1]
  simp only [hzip, h.eq_some_iff, exists_and_left]

/-- A jump by name finds the label that has the name, where the label is placed. -/
theorem findTarget_name_eq_ok (h : Places p.labels.size p.body.toList placed)
    (hnamed : p.LabelsNamed) {i : Nat} {name : String} {l : LabelId} :
    p.findTarget placed (p.placedByName placed) i (.name name) = .ok l ↔
      p.labels[l]? = some name ∧ ∃ j : Nat, p.body.toList[j]? = some (Stmt.label l) := by
  rw [← h.getElem?_placedByName hnamed]
  unfold findTarget
  cases hname : (p.placedByName placed)[name]? with
  | none => simp [hname]
  | some k => simp [hname]

end Places

end StackIR.Procedure
