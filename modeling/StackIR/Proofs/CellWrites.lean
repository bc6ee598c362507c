import StackIR.Effects
import StackIR.Proofs.Built

/-!
# Which evaluations may write

Whether an evaluation may write a cell is asked of a whole tree of operands, but answered along a
single chain of them that ends at the first node that tells (`Arena.mayWriteCells?`). Nodes that do
not write themselves have at most one operand, so nothing is missed: the answer is that of the
traversal that enters every operand of every node, except below a shared node whose value is there
already (`Arena.Enters`). Recording uses only takes operands away from that traversal, so what was
found not to write never comes to write.
-/

namespace StackIR

open Relation

/-- Whether a node is one of those that are taken to write a cell: a store, a call or a sequence. -/
def Node.isWriter : Node → Bool
  | .store .. | .runtimeCall .. | .procCall .. | .sequence _ => true
  | _ => false

namespace Arena

/-- The arena is made by the factories of nodes, from nothing. -/
def Built (a : Arena) : Prop :=
  BuildsTo {} a

theorem Built.operandsPrecede {a : Arena} (h : a.Built) : a.OperandsPrecede :=
  operandsPrecede_empty.buildsTo h

/-- An evaluation of the first node enters the second: it is an operand, and the first is not a
shared node that has been computed. -/
def Enters (a : Arena) (uses : UseTracker) (e x : ExprId) : Prop :=
  ∃ n, a.get? e = some n ∧ (n.isShared = true → uses.current e = 0) ∧ x ∈ n.operands

/-- The traversal that starts at a node and goes wherever an evaluation enters meets a node that
writes. -/
def MeetsWriter (a : Arena) (uses : UseTracker) (e : ExprId) : Prop :=
  ∃ x n, ReflTransGen (a.Enters uses) e x ∧ a.get? x = some n ∧ n.isWriter = true

variable {a : Arena} {uses : UseTracker} {e : ExprId} {n : Node}

/-- What the traversal meets from a node, it meets there or from an operand that it enters. -/
theorem meetsWriter_iff (he : a.get? e = some n) :
    a.MeetsWriter uses e ↔ n.isWriter = true ∨
      (n.isShared = true → uses.current e = 0) ∧ ∃ x ∈ n.operands, a.MeetsWriter uses x := by
  constructor
  · rintro ⟨x, m, hpath, hx, hm⟩
    rcases ReflTransGen.cases_head hpath with rfl | ⟨y, ⟨n', he', hopen, hy⟩, hpath⟩
    · obtain rfl := Option.some.inj (he.symm.trans hx)
      exact Or.inl hm
    · obtain rfl := Option.some.inj (he.symm.trans he')
      exact Or.inr ⟨hopen, y, hy, x, m, hpath, hx, hm⟩
  · rintro (hn | ⟨hopen, y, hy, x, m, hpath, hx, hm⟩)
    · exact ⟨e, n, ReflTransGen.refl, he, hn⟩
    · exact ⟨x, m, ReflTransGen.head ⟨n, he, hopen, hy⟩ hpath, hx, hm⟩

/-- The answer for a node, given that for its operands. -/
theorem mayWriteCells?_of_operands (he : a.get? e = some n) (hlt : ∀ x ∈ n.operands, x < e)
    (hoperands : ∀ x ∈ n.operands, ∃ b, a.mayWriteCells? uses x = some b ∧
      (b = true ↔ a.MeetsWriter uses x)) :
    ∃ b, a.mayWriteCells? uses e = some b ∧ (b = true ↔ a.MeetsWriter uses e) := by
  rw [meetsWriter_iff he, mayWriteCells?, he]
  cases n with
  | literal _ | pointer _ _ | cell _ | jumpValue =>
      exact ⟨false, rfl, by simp [Node.isWriter, Node.operands]⟩
  | store _ _ | runtimeCall _ _ _ | procCall _ _ _ | sequence _ =>
      exact ⟨true, rfl, by simp [Node.isWriter]⟩
  | shared x =>
      obtain ⟨b, hb, hmeets⟩ := hoperands x List.mem_cons_self
      have hx : x < e := hlt x List.mem_cons_self
      by_cases hcurrent : uses.current e = 0
      · exact ⟨b, by simpa [hcurrent, hx] using hb, by
          simpa [Node.isWriter, Node.operands, hcurrent] using hmeets⟩
      · exact ⟨false, by simp [hcurrent], by simp [Node.isWriter, Node.isShared, hcurrent]⟩
  | retain x | release x | field x _ =>
      obtain ⟨b, hb, hmeets⟩ := hoperands x List.mem_cons_self
      have hx : x < e := hlt x List.mem_cons_self
      exact ⟨b, by simpa [hx] using hb, by
        simpa [Node.isWriter, Node.isShared, Node.operands] using hmeets⟩

theorem OperandsPrecede.exists_mayWriteCells?_iff (h : a.OperandsPrecede) (uses : UseTracker)
    (he : e < a.size) :
    ∃ b, a.mayWriteCells? uses e = some b ∧ (b = true ↔ a.MeetsWriter uses e) := by
  induction e using Nat.strong_induction_on with
  | _ e ih =>
      obtain ⟨n, hn⟩ := exists_get?_of_lt he
      refine mayWriteCells?_of_operands hn (h e n hn) fun x hx => ?_
      exact ih x (h e n hn x hx) (Nat.lt_trans (h e n hn x hx) he)

theorem Enters.of_record {e x : ExprId} {further : List ExprId}
    (h : a.Enters (further.foldl UseTracker.record uses) e x) : a.Enters uses e x := by
  obtain ⟨n, hn, hopen, hx⟩ := h
  refine ⟨n, hn, fun hshared => ?_, hx⟩
  have hcurrent := hopen hshared
  rw [UseTracker.current_foldl_record] at hcurrent
  omega

/-- Recording uses leaves less to enter. -/
theorem MeetsWriter.of_record {further : List ExprId}
    (h : a.MeetsWriter (further.foldl UseTracker.record uses) e) : a.MeetsWriter uses e := by
  obtain ⟨x, n, hpath, hx, hn⟩ := h
  exact ⟨x, n, hpath.lift id fun _ _ => Enters.of_record, hx, hn⟩

/-- An evaluation may write exactly if the full traversal meets a node that writes. Once it may not,
no further uses make it so that it may. -/
theorem mayWriteCells_iff_meetsWriter (h : a.Built) (uses : UseTracker) (he : e < a.size) :
    (a.mayWriteCells? uses e = some false ↔ ¬a.MeetsWriter uses e) ∧
      (a.mayWriteCells? uses e = some true ↔ a.MeetsWriter uses e) ∧
      ∀ further : List ExprId, a.mayWriteCells? uses e = some false →
        a.mayWriteCells? (further.foldl UseTracker.record uses) e = some false := by
  have hanswer : ∀ uses : UseTracker,
      (a.mayWriteCells? uses e = some false ↔ ¬a.MeetsWriter uses e) ∧
        (a.mayWriteCells? uses e = some true ↔ a.MeetsWriter uses e) := by
    intro uses
    obtain ⟨b, hb, hmeets⟩ := h.operandsPrecede.exists_mayWriteCells?_iff uses he
    rw [hb, ← hmeets]
    cases b <;> simp
  refine ⟨(hanswer uses).1, (hanswer uses).2, fun further hfalse => ?_⟩
  rw [(hanswer _).1] at hfalse ⊢
  exact fun hmeets => hfalse hmeets.of_record

/-- A field of a shared call, shared and retained. -/
def retainedField : Arena :=
  ⟨#[.jumpValue, .runtimeCall "f" true [0], .shared 1, .field 2 3, .shared 3, .retain 4]⟩

theorem retainedField_built : retainedField.Built := by
  have hempty : BuildsTo {} ({} : Arena) := ReflTransGen.refl
  have hcall := (hempty.tail (.node .jumpValue rfl (by simp [Node.operands]))).tail
    (.node (.runtimeCall "f" true [0]) rfl (by decide))
  have hfield := (hcall.tail (.share 1 (by decide))).tail (.node (.field 2 3) rfl (by decide))
  exact (hfield.tail (.share 3 (by decide))).tail (.node (.retain 4) rfl (by decide))

/-- The call is met from the outside until it has been computed, whatever is used after that. -/
theorem mayWriteCells_retainedField : retainedField.Built ∧ 5 < retainedField.size ∧
    retainedField.MeetsWriter {} 5 ∧ ¬retainedField.MeetsWriter (UseTracker.record {} 2) 5 ∧
    retainedField.mayWriteCells? ([4, 2].foldl UseTracker.record (UseTracker.record {} 2)) 5 =
      some false := by
  have hlt : 5 < retainedField.size := by decide
  have hmay : retainedField.mayWriteCells? {} 5 = some true := by
    simp [mayWriteCells?, get?, retainedField, UseTracker.current]
  have hmayNot : retainedField.mayWriteCells? (UseTracker.record {} 2) 5 = some false := by
    simp [mayWriteCells?, get?, retainedField, UseTracker.current, UseTracker.record]
  obtain ⟨-, hmeets, -⟩ := mayWriteCells_iff_meetsWriter retainedField_built {} hlt
  obtain ⟨hnot, -, hfurther⟩ :=
    mayWriteCells_iff_meetsWriter retainedField_built (UseTracker.record {} 2) hlt
  exact ⟨retainedField_built, hlt, hmeets.mp hmay, hnot.mp hmayNot, hfurther [4, 2] hmayNot⟩

end Arena

end StackIR
