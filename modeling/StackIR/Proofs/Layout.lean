import Mathlib.Algebra.Ring.Nat
import StackIR.Proofs.Emitting

/-!
# Where the statements of a script stand

A statement of a script comes to no, one or many statements of the procedure (`Script.width`), and
its labels go by handles that are made at the first mention. The body of the procedure is cut into
the chunks its statements come to (`Appears`, `appear_of_lower`), so each statement stands behind
what the statements before it come to (`Script.offset`, `laidOut_of_lower`).
-/

namespace StackIR

def Stmt.jumpsTo (l : LabelId) : Stmt → Bool
  | .jump (.label k) _ _ => k = l
  | _ => false

namespace Script

def Stmt.jumpsTo (name : String) : Stmt → Bool
  | .jump target _ _ => target = name
  | _ => false

/-! ## Labels by name -/

/-- Every label made for a name has the name and its own handle in its text. -/
def Emission.Named (m : Emission) : Prop :=
  ∀ (name : String) (l : LabelId), m.labels[name]? = some l →
    m.procedure.labels[l]? = some ("." ++ name ++ "." ++ l.repr)

theorem Emission.Named.injective {m : Emission} (hm : m.Named) {name name' : String} {l : LabelId}
    (h : m.labels[name]? = some l) (h' : m.labels[name']? = some l) : name = name' := by
  have heq := Option.some.inj ((hm name l h).symm.trans (hm name' l h'))
  have hlist := congrArg String.toList heq
  simp only [String.toList_append] at hlist
  exact String.toList_inj.mp (List.append_cancel_left (List.append_cancel_right
    (List.append_cancel_right hlist)))

theorem Emission.Named.lt {m : Emission} (hm : m.Named) {name : String} {l : LabelId}
    (h : m.labels[name]? = some l) : l < m.procedure.labels.size :=
  (Array.getElem?_eq_some_iff.mp (hm name l h)).1

/-- Looking for the label of a name finds it, made before or now, and keeps the others. -/
theorem Emission.Named.label {m : Emission} (hm : m.Named) (name : String) :
    (m.label name).2.Named ∧ (m.label name).2.labels[name]? = some (m.label name).1 ∧
      ∀ (other : String) (l : LabelId), m.labels[other]? = some l →
        (m.label name).2.labels[other]? = some l := by
  unfold Emission.label
  cases hname : m.labels[name]? with
  | some l => exact ⟨hm, hname, fun _ _ h => h⟩
  | none =>
      have hkeep : ∀ (other : String) (l : LabelId), m.labels[other]? = some l →
          (m.labels.insert name m.procedure.labels.size)[other]? = some l := fun other l h => by
        have hne : name ≠ other := by
          rintro rfl
          rw [hname] at h
          cases h
        rw [Std.HashMap.getElem?_insert, if_neg (by simpa using hne), h]
      refine ⟨fun other l h => ?_, Std.HashMap.getElem?_insert_self, hkeep⟩
      have h : (m.labels.insert name m.procedure.labels.size)[other]? = some l := h
      show (m.procedure.labels.push _)[l]? = _
      rw [Std.HashMap.getElem?_insert] at h
      by_cases heq : name = other
      · subst heq
        rw [if_pos (by simp)] at h
        obtain rfl := Option.some.inj h
        rw [Array.getElem?_push_size]
      · rw [if_neg (by simpa using heq)] at h
        have hl := hm other l h
        have hlt := (Array.getElem?_eq_some_iff.mp hl).1
        rw [Array.getElem?_push, if_neg (Nat.ne_of_lt hlt), hl]

/-! ## Chunks of the body -/

/-- The number of statements of the procedure that a statement comes to. Clearing a cell comes to a
statement if the frame holds a reference through it, and clearing all to one for each such local and
argument, except in the entry point of the program. -/
def width (s : Script) : Stmt → Nat
  | .clear name => if (s.cellNamed name).any Cell.isManaged then 1 else 0
  | .clearAll =>
    if s.header.isRoot then 0 else s.allCells.countP fun c => c.isOwned && c.isManaged
  | _ => 1

theorem length_exits_clear (s : Script) (name : String) :
    (s.exits (.clear name)).length = s.width (.clear name) := by
  simp only [exits, width]
  cases s.cellNamed name with
  | none => rfl
  | some c => cases hmanaged : c.isManaged <;> simp [hmanaged]

theorem length_exits_clearAll (s : Script) :
    (s.exits .clearAll).length = s.width .clearAll := by
  have hcount : ∀ cs : List Cell, ((cs.filter (·.storage = .localVar) ++
      cs.filter (·.storage = .argument)).filter Cell.isManaged).length =
        cs.countP fun c => c.isOwned && c.isManaged := by
    intro cs
    simp only [List.filter_append, List.filter_filter, List.length_append,
      ← List.countP_eq_length_filter]
    induction cs with
    | nil => rfl
    | cons c cs ih =>
        simp only [List.countP_cons]
        rw [← ih]
        cases hstorage : c.storage <;> cases hmanaged : c.isManaged <;>
          simp [Cell.isOwned, hstorage] <;> omega
  simp only [exits, width]
  split
  · rfl
  · exact hcount s.allCells

/-- The number of statements of the procedure that the first statements come to. -/
def offset (s : Script) (i : Nat) : Nat :=
  ((s.body.take i).map s.width).sum

/-- What a statement comes to in the body, its labels going by the given handles. -/
inductive Appears (s : Script) (labels : Std.HashMap String LabelId) :
    Stmt → List StackIR.Stmt → Prop where
  | expr (e : Expr) (x : ExprId) : Appears s labels (.expr e) [.expr x]
  | store (name : String) (value : Expr) (isInit : Bool) (x : ExprId) :
      Appears s labels (.store name value isInit) [.expr x]
  | label {name : String} {l : LabelId} (h : labels[name]? = some l) :
      Appears s labels (.label name) [.label l]
  | jump {target : String} {l : LabelId} (mode : JumpMode) (value : Option Expr)
      (x : Option ExprId) (h : labels[target]? = some l) :
      Appears s labels (.jump target mode value) [.jump (.label l) mode x]
  | stackEmpty : Appears s labels .stackEmpty [.stackEmpty]
  | clear (name : String) {xs : List ExprId} (h : xs.length = (s.exits (.clear name)).length) :
      Appears s labels (.clear name) (xs.map .expr)
  | clearAll {xs : List ExprId} (h : xs.length = (s.exits .clearAll).length) :
      Appears s labels .clearAll (xs.map .expr)

section Chunks

variable {s : Script} {labels : Std.HashMap String LabelId} {st : Stmt}
  {chunk : List StackIR.Stmt}

theorem Appears.length_eq (h : Appears s labels st chunk) : chunk.length = s.width st := by
  cases h with
  | clear name h => rw [List.length_map, h, length_exits_clear]
  | clearAll h => rw [List.length_map, h, length_exits_clearAll]
  | _ => rfl

theorem Appears.mono {labels' : Std.HashMap String LabelId} (h : Appears s labels st chunk)
    (hmono : ∀ (name : String) (l : LabelId), labels[name]? = some l → labels'[name]? = some l) :
    Appears s labels' st chunk := by
  cases h with
  | expr e x => exact .expr e x
  | store name value isInit x => exact .store name value isInit x
  | label h => exact .label (hmono _ _ h)
  | jump mode value x h => exact .jump mode value x (hmono _ _ h)
  | stackEmpty => exact .stackEmpty
  | clear name h => exact .clear name h
  | clearAll h => exact .clearAll h

theorem Appears.label_cases (h : Appears s labels st chunk) {j : Nat} {l : LabelId}
    (hj : chunk[j]? = some (.label l)) :
    j = 0 ∧ ∃ name, st = .label name ∧ labels[name]? = some l := by
  cases h with
  | label h =>
      cases j with
      | zero =>
          obtain rfl : _ = l := by simpa using hj
          exact ⟨rfl, _, rfl, h⟩
      | succ j => simp at hj
  | clear _ _ | clearAll _ => simp at hj
  | _ => cases j <;> simp at hj

theorem Appears.jump_cases (h : Appears s labels st chunk) {j : Nat} {t : Target}
    {mode : JumpMode} {x : Option ExprId} (hj : chunk[j]? = some (.jump t mode x)) :
    j = 0 ∧ ∃ target value l, st = .jump target mode value ∧ t = .label l ∧
      labels[target]? = some l := by
  cases h with
  | jump mode value x h =>
      cases j with
      | zero =>
          obtain ⟨rfl, rfl, rfl⟩ : .label _ = t ∧ _ = _ ∧ _ = _ := by simpa using hj
          exact ⟨rfl, _, _, _, rfl, rfl, h⟩
      | succ j => simp at hj
  | clear _ _ | clearAll _ => simp at hj
  | _ => cases j <;> simp at hj

/-- A chunk has one jump to a label if its statement jumps to the name of the label, else none. -/
theorem Appears.countP_eq (h : Appears s labels st chunk) {name : String} {l : LabelId}
    (hl : ∀ target : String, labels[target]? = some l ↔ target = name) :
    chunk.countP (StackIR.Stmt.jumpsTo l) = if st.jumpsTo name then 1 else 0 := by
  cases h with
  | @jump target k mode value x hk =>
      have hiff : k = l ↔ target = name := by
        rw [← hl target, hk, Option.some.injEq]
      simp [StackIR.Stmt.jumpsTo, Stmt.jumpsTo, hiff]
  | clear _ _ | clearAll _ =>
      simp [List.countP_map, Function.comp_def, StackIR.Stmt.jumpsTo, Stmt.jumpsTo]
  | _ => rfl

end Chunks

/-! ## The run of a body -/

theorem body_foldl_release (cs : List Cell) : ∀ (p : Procedure),
    ∃ xs : List ExprId, xs.length = cs.length ∧
      (cs.foldl Procedure.release p).body.toList = p.body.toList ++ xs.map .expr ∧
        (cs.foldl Procedure.release p).labels = p.labels := by
  induction cs with
  | nil => exact fun p => ⟨[], rfl, by simp, rfl⟩
  | cons c cs ih =>
      intro p
      obtain ⟨xs, hlength, hbody, hlabels⟩ := ih (p.release c)
      refine ⟨(p.arena.size + 1) :: xs, by simp [hlength], ?_, hlabels⟩
      rw [List.foldl_cons, hbody]
      simp [Procedure.release, Procedure.emit]

/-- One statement appends its chunk and keeps the labels made before. -/
theorem Emits.appears {s : Script} {cells : CellTable} {m m' : Emission} {st : Stmt}
    (h : Emits s cells m st m') (hm : m.Named) :
    m'.Named ∧ (∀ (name : String) (l : LabelId), m.labels[name]? = some l →
        m'.labels[name]? = some l) ∧
      ∃ chunk, Appears s m'.labels st chunk ∧
        m'.procedure.body.toList = m.procedure.body.toList ++ chunk := by
  cases h with
  | evaluate h =>
      refine ⟨hm, fun _ _ h => h, [.expr _], ?_, Array.toList_push⟩
      cases h with
      | expr _ => exact .expr _ _
      | init _ _ => exact .store _ _ _ _
      | assign _ _ => exact .store _ _ _ _
  | label name =>
      obtain ⟨hnamed, hname, hkeep⟩ := hm.label name
      have hbody : (m.label name).2.procedure.body = m.procedure.body := by
        rw [m.label_procedure name]
      exact ⟨hnamed, hkeep, _, .label hname, by simp [Emission.emit, Procedure.emit, hbody]⟩
  | @jump target mode value x b h =>
      obtain ⟨hnamed, hname, hkeep⟩ := hm.label target
      have hbody : (m.label target).2.procedure.body = m.procedure.body := by
        rw [m.label_procedure target]
      exact ⟨hnamed, hkeep, _, .jump mode value x hname,
        by simp [Emission.emit, Emission.withArena, Procedure.emit, hbody]⟩
  | stackEmpty => exact ⟨hm, fun _ _ h => h, _, .stackEmpty, Array.toList_push⟩
  | exit hst _ =>
      obtain ⟨xs, hlength, hbody, hlabels⟩ := body_foldl_release (s.exits st) m.procedure
      refine ⟨fun name l h => ?_, fun _ _ h => h, xs.map .expr, ?_, hbody⟩
      · show ((s.exits st).foldl Procedure.release m.procedure).labels[l]? = _
        rw [hlabels]
        exact hm name l h
      · rcases hst with ⟨name, rfl⟩ | rfl
        · exact .clear name hlength
        · exact .clearAll hlength

/-- A statement comes to as many statements of the procedure as its width. -/
theorem Emits.size_body {s : Script} {cells : CellTable} {m m' : Emission} {st : Stmt}
    (h : Emits s cells m st m') :
    m'.procedure.body.size = m.procedure.body.size + s.width st := by
  cases h with
  | evaluate h =>
      have hwidth : s.width st = 1 := by cases h <;> rfl
      rw [hwidth]
      exact Array.size_push _
  | label name =>
      have hbody : (m.label name).2.procedure.body = m.procedure.body := by
        rw [m.label_procedure name]
      rw [← hbody]
      exact Array.size_push _
  | jump target mode h =>
      have hbody : (m.label target).2.procedure.body = m.procedure.body := by
        rw [m.label_procedure target]
      rw [← hbody]
      exact Array.size_push _
  | stackEmpty => exact Array.size_push _
  | exit hst _ =>
      obtain ⟨xs, hxs, hbody, -⟩ := body_foldl_release (s.exits st) m.procedure
      have hwidth : (s.exits st).length = s.width st := by
        rcases hst with ⟨name, rfl⟩ | rfl
        · exact length_exits_clear s name
        · exact length_exits_clearAll s
      rw [← Array.length_toList, hbody, List.length_append, List.length_map, hxs, hwidth,
        Array.length_toList]

/-- A run appends the chunks of its statements in order. -/
theorem Emitted.appear {s : Script} {cells : CellTable} {m m' : Emission} {ss : List Stmt}
    (h : Emitted s cells m ss m') (hm : m.Named) :
    m'.Named ∧ ∃ chunks, List.Forall₂ (Appears s m'.labels) ss chunks ∧
      m'.procedure.body.toList = m.procedure.body.toList ++ chunks.flatten := by
  induction h with
  | nil => exact ⟨hm, [], .nil, by simp⟩
  | concat hrun hstep ih =>
      obtain ⟨hnamed, chunks, hchunks, hbody⟩ := ih
      obtain ⟨hnamed', hkeep, chunk, hchunk, hbody'⟩ := hstep.appears hnamed
      refine ⟨hnamed', chunks ++ [chunk], ?_, ?_⟩
      · exact List.rel_append (hchunks.imp fun _ _ h => h.mono hkeep) (.cons hchunk .nil)
      · rw [hbody', hbody, List.flatten_append, List.append_assoc]
        simp

theorem appear_of_lower {s : Script} {p : Procedure} (h : s.lower = .ok p) :
    ∃ (m : Emission) (chunks : List (List StackIR.Stmt)), m.procedure = p ∧ m.Named ∧
      List.Forall₂ (Appears s m.labels) s.body chunks ∧ p.body.toList = chunks.flatten := by
  obtain ⟨d, m, hd, hrun, rfl⟩ := emitted_of_lower h
  have hnone : Emission.Named { procedure := d.procedure } := fun name l hl => by simp at hl
  obtain ⟨hnamed, chunks, hchunks, hbody⟩ := hrun.appear hnone
  refine ⟨m, chunks, rfl, hnamed, hchunks, ?_⟩
  rw [hbody, (declares_of_declared hd).procedure_eq]
  rfl

/-! ## Where statements stand -/

section Positions

variable {α β : Type} {R : α → List β → Prop} {w : α → Nat}

theorem exists_of_getElem?_flatten (hw : ∀ x ys, R x ys → ys.length = w x) :
    ∀ {xs : List α} {yss : List (List β)}, List.Forall₂ R xs yss → ∀ {k : Nat} {y : β},
      yss.flatten[k]? = some y → ∃ i x ys j, xs[i]? = some x ∧ R x ys ∧ ys[j]? = some y ∧
        k = ((xs.take i).map w).sum + j := by
  intro xs yss h
  induction h with
  | nil => simp
  | cons hR _ ih =>
      intro k y hk
      rw [List.flatten_cons, List.getElem?_append] at hk
      split at hk
      next hlt => exact ⟨0, _, _, k, rfl, hR, hk, by simp⟩
      next hge =>
          obtain ⟨i, x, ys, j, hx, hys, hj, hij⟩ := ih hk
          refine ⟨i + 1, x, ys, j, hx, hys, hj, ?_⟩
          rw [List.take_succ_cons, List.map_cons, List.sum_cons, ← hw _ _ hR]
          omega

theorem exists_getElem?_flatten (hw : ∀ x ys, R x ys → ys.length = w x) :
    ∀ {xs : List α} {yss : List (List β)}, List.Forall₂ R xs yss → ∀ {i : Nat} {x : α},
      xs[i]? = some x → ∃ ys, R x ys ∧ ∀ (j : Nat) (y : β), ys[j]? = some y →
        yss.flatten[((xs.take i).map w).sum + j]? = some y := by
  intro xs yss h
  induction h with
  | nil => simp
  | @cons x' ys' xs yss hR _ ih =>
      intro i x hi
      cases i with
      | zero =>
          obtain rfl : x' = x := by simpa using hi
          refine ⟨ys', hR, fun j y hj => ?_⟩
          have hlt := (List.getElem?_eq_some_iff.mp hj).1
          simpa [List.getElem?_append_left hlt] using hj
      | succ i =>
          obtain ⟨ys, hys, hget⟩ := ih (by simpa using hi)
          refine ⟨ys, hys, fun j y hj => ?_⟩
          have hsum : (((x' :: xs).take (i + 1)).map w).sum + j =
              ys'.length + (((xs.take i).map w).sum + j) := by
            rw [List.take_succ_cons, List.map_cons, List.sum_cons, hw _ _ hR]
            omega
          rw [hsum, List.flatten_cons, List.getElem?_append_right (Nat.le_add_right _ _),
            Nat.add_sub_cancel_left]
          exact hget j y hj

theorem length_flatten_of_forall₂ (hw : ∀ x ys, R x ys → ys.length = w x) {xs : List α}
    {yss : List (List β)} (h : List.Forall₂ R xs yss) : yss.flatten.length = (xs.map w).sum := by
  induction h with
  | nil => rfl
  | cons hR _ ih => rw [List.flatten_cons, List.length_append, ih, hw _ _ hR, List.map_cons,
      List.sum_cons]

/-- Counting in the chunks counts the elements, if each chunk has one or none. -/
theorem countP_flatten_of_forall₂ {f : β → Bool} {g : α → Bool}
    (hf : ∀ x ys, R x ys → ys.countP f = if g x then 1 else 0) {xs : List α}
    {yss : List (List β)} (h : List.Forall₂ R xs yss) : yss.flatten.countP f = xs.countP g := by
  induction h with
  | nil => rfl
  | cons hR _ ih =>
      rw [List.flatten_cons, List.countP_append, ih, hf _ _ hR, List.countP_cons, Nat.add_comm]

end Positions

theorem offset_succ {s : Script} {k : Nat} {st : Stmt} (hk : s.body[k]? = some st) :
    s.offset (k + 1) = s.offset k + s.width st := by
  unfold offset
  rw [List.take_add_one, hk, List.map_append, List.sum_append]
  simp

theorem offset_lt {s : Script} {i j : Nat} (hij : i < j) {st : Stmt} (hi : s.body[i]? = some st)
    (hst : 0 < s.width st) : s.offset i < s.offset j := by
  obtain ⟨d, rfl⟩ := Nat.exists_eq_add_of_le (Nat.succ_le_of_lt hij)
  have hsplit : s.body.take (i + 1 + d) =
      s.body.take i ++ st :: (s.body.drop (i + 1)).take d := by
    rw [List.take_add, List.take_add_one, hi, Option.toList_some, List.append_assoc,
      List.singleton_append]
  unfold offset
  rw [hsplit, List.map_append, List.sum_append, List.map_cons, List.sum_cons]
  omega

/-- Where the labels and jumps of a script stand in the body, going by the given handles. -/
structure LaidOut (s : Script) (m : Emission) : Prop where
  named : m.Named
  size_eq : m.procedure.body.size = s.offset s.body.length
  label_iff : ∀ (k : Nat) (l : LabelId), m.procedure.body.toList[k]? = some (.label l) ↔
    ∃ (i : Nat) (name : String), s.body[i]? = some (.label name) ∧ m.labels[name]? = some l ∧
      k = s.offset i
  jump_of : ∀ (k : Nat) (t : Target) (mode : JumpMode) (x : Option ExprId),
    m.procedure.body.toList[k]? = some (.jump t mode x) →
      ∃ (i : Nat) (target : String) (value : Option Expr) (l : LabelId),
        s.body[i]? = some (.jump target mode value) ∧ t = .label l ∧ m.labels[target]? = some l ∧
          k = s.offset i
  label_at : ∀ (i : Nat) (name : String), s.body[i]? = some (.label name) →
    ∃ l, m.labels[name]? = some l
  jump_at : ∀ (i : Nat) (target : String) (mode : JumpMode) (value : Option Expr),
    s.body[i]? = some (.jump target mode value) → ∃ (l : LabelId) (x : Option ExprId),
      m.labels[target]? = some l ∧
        m.procedure.body.toList[s.offset i]? = some (.jump (.label l) mode x)
  countP_eq : ∀ (name : String) (l : LabelId), m.labels[name]? = some l →
    m.procedure.body.toList.countP (StackIR.Stmt.jumpsTo l) = s.body.countP (Stmt.jumpsTo name)

theorem LaidOut.of_chunks {s : Script} {m : Emission} {chunks : List (List StackIR.Stmt)}
    (hnamed : m.Named) (hchunks : List.Forall₂ (Appears s m.labels) s.body chunks)
    (hbody : m.procedure.body.toList = chunks.flatten) : LaidOut s m := by
  have hw : ∀ st chunk, Appears s m.labels st chunk → chunk.length = s.width st :=
    fun _ _ h => h.length_eq
  refine ⟨hnamed, ?_, fun k l => ⟨fun hk => ?_, ?_⟩, fun k t mode x hk => ?_,
    fun i name hi => ?_, fun i target mode value hi => ?_, fun name l hl => ?_⟩
  · rw [← Array.length_toList, hbody, length_flatten_of_forall₂ hw hchunks, offset,
      List.take_length]
  · rw [hbody] at hk
    obtain ⟨i, st, chunk, j, hi, hst, hj, rfl⟩ := exists_of_getElem?_flatten hw hchunks hk
    obtain ⟨rfl, name, rfl, hname⟩ := hst.label_cases hj
    exact ⟨i, name, hi, hname, rfl⟩
  · rintro ⟨i, name, hi, hname, rfl⟩
    obtain ⟨chunk, hst, hget⟩ := exists_getElem?_flatten hw hchunks hi
    cases hst with
    | label hname' =>
        obtain rfl := Option.some.inj (hname.symm.trans hname')
        rw [hbody]
        exact hget 0 _ rfl
  · rw [hbody] at hk
    obtain ⟨i, st, chunk, j, hi, hst, hj, rfl⟩ := exists_of_getElem?_flatten hw hchunks hk
    obtain ⟨rfl, target, value, l, rfl, rfl, hl⟩ := hst.jump_cases hj
    exact ⟨i, target, value, l, hi, rfl, hl, rfl⟩
  · obtain ⟨chunk, hst, -⟩ := exists_getElem?_flatten hw hchunks hi
    cases hst with
    | label hname => exact ⟨_, hname⟩
  · obtain ⟨chunk, hst, hget⟩ := exists_getElem?_flatten hw hchunks hi
    cases hst with
    | jump _ _ x hl =>
        rw [hbody]
        exact ⟨_, x, hl, hget 0 _ rfl⟩
  · rw [hbody]
    refine countP_flatten_of_forall₂ (fun _ _ h => h.countP_eq fun target => ?_) hchunks
    constructor
    · exact fun htarget => hnamed.injective htarget hl
    · rintro rfl
      exact hl

theorem laidOut_of_lower {s : Script} {p : Procedure} (h : s.lower = .ok p) :
    ∃ m : Emission, m.procedure = p ∧ LaidOut s m := by
  obtain ⟨m, chunks, rfl, hnamed, hchunks, hbody⟩ := appear_of_lower h
  exact ⟨m, rfl, .of_chunks hnamed hchunks hbody⟩

end Script

end StackIR
