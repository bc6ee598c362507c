import StackIR.Proofs.AcyclicOutlines
import StackIR.Proofs.Dumping
import StackIR.Proofs.LabelNames
import StackIR.Proofs.Quoting

/-!
# The lines of a dump

Where no name of a procedure contains a line feed (`Procedure.SingleLined`), its dump has four lines
on the procedure and one for each statement, and each ends with a line feed
(`Procedure.dumpedByLine_of_built`). A line feed in the text of a pointer does no harm: that text is
quoted.

The lines are read back by splitting the text at its line feeds. That no line holds one of its own
is shown for every part a line is put together from, and for outlines by induction.
-/

namespace StackIR

/-- A text that has no line feed. -/
def OneLine (s : String) : Prop :=
  '\n' ∉ s.toList

instance (s : String) : Decidable (OneLine s) :=
  inferInstanceAs (Decidable (_ ∉ _))

@[simp] theorem oneLine_append {s t : String} : OneLine (s ++ t) ↔ OneLine s ∧ OneLine t := by
  simp [OneLine]

theorem oneLine_intercalate {sep : String} (hsep : OneLine sep) {ss : List String}
    (h : ∀ s ∈ ss, OneLine s) : OneLine (sep.intercalate ss) := by
  induction ss with
  | nil => exact (by decide : OneLine "")
  | cons s ss ih =>
      have hs := h s List.mem_cons_self
      have hss := ih fun s' hs' => h s' (List.mem_cons_of_mem _ hs')
      cases ss with
      | nil => simpa using hs
      | cons s' ss =>
          rw [String.intercalate_cons_cons]
          simp [hs, hsep, hss]

@[simp] theorem oneLine_repr (n : Nat) : OneLine n.repr := fun h =>
  absurd (isDigit_of_mem_repr h) (by decide)

@[simp] theorem oneLine_int_repr (z : Int) : OneLine z.repr := by
  cases z with
  | ofNat n => exact oneLine_repr n
  | negSucc n => exact oneLine_append.mpr ⟨by decide, oneLine_repr (n + 1)⟩

@[simp] theorem oneLine_quote (s : String) : OneLine (Text.quote s) :=
  Text.lineFeed_not_mem_quote s

/-! ## Columns -/

/-- A number at the right of a column that is as wide as given, or as wide as it needs to be. -/
def RightAligned (width n : Nat) (column : String) : Prop :=
  column.length = max width n.repr.length ∧
    ∃ k, column.toList = List.replicate k ' ' ++ n.repr.toList

theorem rightAligned_columnText (n : Nat) : RightAligned 4 n (columnText n) := by
  constructor
  · simp [columnText]
    omega
  · exact ⟨4 - n.repr.length, by simp [columnText]⟩

@[simp] theorem oneLine_columnText (n : Nat) : OneLine (columnText n) := by
  refine oneLine_append.mpr ⟨?_, oneLine_repr n⟩
  simp [OneLine]

/-! ## Parts of a line -/

theorem Literal.oneLine_text (v : Literal) : OneLine v.text := by
  rcases v with value | _ | _
  · exact oneLine_int_repr value.toInt
  · decide
  · decide

theorem Cell.oneLine_text {c : Cell} (h : ∀ name, c.name = some name → OneLine name) :
    OneLine c.text := by
  have hname : OneLine (c.name.getD "?") := by
    cases hc : c.name with
    | none => decide
    | some name => exact h name hc
  unfold text
  split <;> split <;> simp +decide [hname]

theorem oneLine_cellsText {cells : Array Cell}
    (h : ∀ c ∈ cells, ∀ name, c.name = some name → OneLine name) : OneLine (cellsText cells) := by
  unfold cellsText
  split
  · decide
  · refine oneLine_intercalate (by decide) ?_
    intro s hs
    obtain ⟨c, hc, rfl⟩ := List.mem_map.mp hs
    exact Cell.oneLine_text (h c (by simpa using hc))

namespace Node

variable {n : Node}

theorem oneLine_atom? (h : ∀ name, n.name? = some name → OneLine name) {s : String}
    (hs : n.atom? = some s) : OneLine s := by
  cases n with
  | literal value =>
      obtain rfl := Option.some.inj hs
      exact value.oneLine_text
  | pointer label info =>
      have hlabel : OneLine label := h label rfl
      obtain rfl := Option.some.inj hs
      split <;> simp +decide [hlabel]
  | cell c =>
      obtain rfl := Option.some.inj hs
      exact Cell.oneLine_text h
  | jumpValue =>
      obtain rfl := Option.some.inj hs
      decide
  | _ => cases hs

theorem oneLine_head (h : ∀ name, n.name? = some name → OneLine name) (e : ExprId)
    (uses? : Option Nat) : OneLine (n.head e uses?) := by
  cases n with
  | runtimeCall name isAsync args =>
      have hname : OneLine name := h name rfl
      cases isAsync <;> simp +decide [head, hname]
  | shared x => cases uses? <;> simp +decide [head]
  | procCall callee isAsync args => cases isAsync <;> simp +decide [head]
  | _ => simp +decide [head]

end Node

/-- No node of the arena has a name with a line feed. -/
def Arena.SingleLined (a : Arena) : Prop :=
  ∀ e n, a.get? e = some n → ∀ name, n.name? = some name → OneLine name

namespace Outline

variable {a : Arena}

mutual

theorem oneLine_text (ha : a.SingleLined) (uses : ExprId → Option Nat) :
    (o : Outline) → o.Draws a → OneLine (o.text uses)
  | .again e, _ => by
      rw [text]
      simp +decide
  | .full e n operands, h => by
      rw [Draws] at h
      obtain ⟨hn, -, hoperands⟩ := h
      rw [text]
      cases hatom : n.atom? with
      | some s => exact Node.oneLine_atom? (ha e n hn) hatom
      | none =>
          have hhead := Node.oneLine_head (ha e n hn) e (uses e)
          have htail := oneLine_operandsText ha uses operands hoperands
          simp +decide [hhead, htail]

theorem oneLine_operandsText (ha : a.SingleLined) (uses : ExprId → Option Nat) :
    (os : List Outline) → DrawsEach a os → OneLine (operandsText uses os)
  | [], _ => by
      rw [operandsText]
      decide
  | o :: os, h => by
      rw [DrawsEach] at h
      have hfirst := oneLine_text ha uses o h.1
      have hrest := oneLine_operandsText ha uses os h.2
      rw [operandsText]
      simp +decide [hfirst, hrest]

end

end Outline

namespace Procedure

variable {p : Procedure}

/-! ## Procedures -/

/-- No name in a procedure has a line feed. -/
structure SingleLined (p : Procedure) : Prop where
  name : ∀ name, p.name = some name → OneLine name
  cells : ∀ c, c ∈ p.args ∨ c ∈ p.locals ∨ c ∈ p.captured →
    ∀ name, c.name = some name → OneLine name
  nodes : p.arena.SingleLined
  bases : ∀ (l : LabelId) (base : String), p.labels[l]? = some ("." ++ base ++ "." ++ l.repr) →
    OneLine base
  targets : ∀ (i : Nat) (name : String) (mode : JumpMode) (value : Option ExprId),
    p.body[i]? = some (.jump (.name name) mode value) → OneLine name

theorem SingleLined.oneLine_title (h : p.SingleLined) : OneLine p.title := by
  have hname : OneLine p.displayName := by
    unfold displayName
    cases hp : p.name with
    | none => decide
    | some name => exact h.name name hp
  unfold title
  cases p.parent <;> cases p.isRoot <;> simp +decide [hname]

theorem SingleLined.oneLine_labelName (h : p.SingleLined) (hnamed : p.LabelsNamed) (l : LabelId) :
    OneLine (p.labelName l) := by
  cases hl : p.labels[l]? with
  | none =>
      rw [labelName, Array.getD_eq_getD_getElem?, hl]
      decide
  | some name =>
      obtain ⟨base, rfl⟩ := hnamed l name hl
      rw [labelName_of_getElem? hl]
      have hbase := h.bases l base hl
      simp +decide [hbase]

theorem SingleLined.oneLine_stmtText (h : p.SingleLined) (hnamed : p.LabelsNamed)
    (link? : Option Linkage) {i : Nat} {s : Stmt} (hs : p.body[i]? = some s) {o? : Option Outline}
    (ho : ∀ o, o? = some o → o.Draws p.arena) : OneLine (p.stmtText link? i s o?) := by
  have hexpr : OneLine ((o?.map (·.text fun e => link?.bind (·.sharedUses[e]?))).getD "") := by
    cases o? with
    | none => exact (by decide : OneLine "")
    | some o => exact o.oneLine_text h.nodes _ (ho o rfl)
  have hlabel := h.oneLine_labelName hnamed
  cases s with
  | expr e => exact oneLine_append.mpr ⟨by decide, hexpr⟩
  | label l => cases link? <;> simp +decide [stmtText, hlabel]
  | jump target mode value =>
      have hmode : OneLine mode.text := by cases mode <;> decide
      have htarget : ∀ linked?, OneLine (p.targetText linked? target) := by
        intro linked?
        cases linked? with
        | some l => exact hlabel l
        | none =>
            cases target with
            | label l => exact hlabel l
            | name name => exact h.targets i name mode value hs
      unfold stmtText
      cases value <;> simp +decide [hmode, htarget, hexpr]
  | stackEmpty => exact (by decide : OneLine "stack_empty")

/-! ## Lines -/

/-- Lines are read back from their text. -/
theorem splitOn_join_lines {lines : List String} (h : ∀ line ∈ lines, OneLine line) :
    (String.join (lines.map (· ++ "\n"))).toList.splitOn '\n' =
      lines.map String.toList ++ [[]] := by
  induction lines with
  | nil => simp
  | cons line lines ih =>
      have hline : '\n' ∉ line.toList := h line List.mem_cons_self
      have hlines := ih fun line' hline' => h line' (List.mem_cons_of_mem _ hline')
      rw [List.map_cons, String.join_cons, String.append_assoc, String.toList_append,
        String.toList_append]
      exact (List.splitOn_append_cons_self_of_not_mem hline _).trans (congrArg _ hlines)

/-- A text is the dump of a procedure in lines: four on the procedure, and then one for each
statement, with its position in a column of its own and the outline of its expression. -/
structure DumpedByLine (p : Procedure) (link? : Option Linkage) (trees : List (Option Outline))
    (text : String) (lines : List String) : Prop where
  split_eq : text.toList.splitOn '\n' = lines.map String.toList ++ [[]]
  length_eq : lines.length = 4 + p.body.size
  head_eq : lines.take 4 = [p.title, "  args: " ++ cellsText p.args,
    "  locals: " ++ cellsText p.locals, "  captured: " ++ cellsText p.captured]
  stmt_line : ∀ i s, p.body[i]? = some s → ∃ o? column, trees[i]? = some o? ∧
    (stmtNodes o?).head? = s.expr? ∧ RightAligned 4 i column ∧
      lines[4 + i]? = some (column ++ "  " ++ p.stmtText link? i s o?)

theorem head?_stmtNodes {a : Arena} {s : Stmt} {o? : Option Outline} {before after : Shown}
    (h : a.outlineStmt s before = some (o?, after)) : (stmtNodes o?).head? = s.expr? := by
  cases hs : s.expr? with
  | none =>
      rw [(Arena.of_outlineStmt_none hs h).1]
      rfl
  | some e =>
      obtain ⟨o, rfl, ho⟩ := Arena.of_outlineStmt_some hs h
      exact Arena.head?_nodes_outline ho

theorem draws_of_outlineStmt {a : Arena} {s : Stmt} {o? : Option Outline} {before after : Shown}
    (h : a.outlineStmt s before = some (o?, after)) {o : Outline} (ho : o? = some o) :
    o.Draws a := by
  subst ho
  cases hs : s.expr? with
  | none => cases (Arena.of_outlineStmt_none hs h).1
  | some e =>
      obtain ⟨o', heq, ho⟩ := Arena.of_outlineStmt_some hs h
      obtain rfl := Option.some.inj heq
      exact (Arena.outlines_of_outline ho).draws

section Lines

variable {link? : Option Linkage} {trees : List (Option Outline)} {shown : Shown}

theorem getElem?_dumpLines {i : Nat} {s : Stmt} {o? : Option Outline} (hs : p.body[i]? = some s)
    (ho : trees[i]? = some o?) : (p.dumpLines link? trees)[4 + i]? =
      some (columnText i ++ "  " ++ p.stmtText link? i s o?) := by
  have hzip : (p.body.toList.zip trees)[i]? = some (s, o?) :=
    List.getElem?_zip_eq_some.mpr ⟨by simpa using hs, ho⟩
  rw [dumpLines_eq, ← length_dumpLines_nil p, getElem?_append_map_zipIdx, hzip, Option.map_some]

theorem length_dumpLines (h : p.body.toList.mapM p.arena.outlineStmt ∅ = some (trees, shown)) :
    (p.dumpLines link? trees).length = 4 + p.body.size := by
  have hle : p.body.size ≤ trees.length := by
    by_contra hlt
    obtain ⟨o?, -, -, htree, -⟩ := Arena.exists_getElem?_outlineStmts h
      (List.getElem?_eq_getElem (l := p.body.toList) (i := trees.length) (by simpa using hlt))
    rw [List.getElem?_eq_none (Nat.le_refl _)] at htree
    cases htree
  simp [dumpLines]
  omega

theorem SingleLined.oneLine_of_mem_dumpLines (hp : p.SingleLined) (hnamed : p.LabelsNamed)
    (h : p.body.toList.mapM p.arena.outlineStmt ∅ = some (trees, shown)) {line : String}
    (hline : line ∈ p.dumpLines link? trees) : OneLine line := by
  rw [dumpLines_eq] at hline
  rcases List.mem_append.mp hline with hhead | hbody
  · have hargs := oneLine_cellsText fun c hc => hp.cells c (Or.inl hc)
    have hlocals := oneLine_cellsText fun c hc => hp.cells c (Or.inr (Or.inl hc))
    have hcaptured := oneLine_cellsText fun c hc => hp.cells c (Or.inr (Or.inr hc))
    simp only [dumpLines, List.zip_nil_right, List.zipIdx_nil, List.map_nil, List.append_nil,
      List.mem_cons, List.not_mem_nil, or_false] at hhead
    rcases hhead with rfl | rfl | rfl | rfl
    · exact hp.oneLine_title
    · exact oneLine_append.mpr ⟨by decide, hargs⟩
    · exact oneLine_append.mpr ⟨by decide, hlocals⟩
    · exact oneLine_append.mpr ⟨by decide, hcaptured⟩
  · obtain ⟨⟨⟨s, o?⟩, i⟩, hmem, rfl⟩ := List.mem_map.mp hbody
    obtain ⟨hs, ho⟩ := List.getElem?_zip_eq_some.mp (List.mk_mem_zipIdx_iff_getElem?.mp hmem)
    obtain ⟨o?', before, after, htree, hstmt⟩ := Arena.exists_getElem?_outlineStmts h hs
    obtain rfl := Option.some.inj (ho.symm.trans htree)
    have htext := hp.oneLine_stmtText hnamed link? (by simpa using hs) fun _ =>
      draws_of_outlineStmt hstmt
    simp +decide [htext]

/-- The dump of a procedure without line feeds in its names is read back line by line. -/
theorem SingleLined.dumpedByLine (hp : p.SingleLined) (hnamed : p.LabelsNamed)
    (htrees : p.outlines = some trees) (link? : Option Linkage) :
    ∃ text, p.dumpWith link? = some text ∧
      p.DumpedByLine link? trees text (p.dumpLines link? trees) := by
  obtain ⟨shown, houtlines⟩ := exists_outlineStmts htrees
  refine ⟨_, by rw [dumpWith, htrees, Option.map_some], ?_⟩
  constructor
  case split_eq =>
    exact splitOn_join_lines fun line hline => hp.oneLine_of_mem_dumpLines hnamed houtlines hline
  case length_eq => exact length_dumpLines houtlines
  case head_eq => rfl
  case stmt_line =>
    intro i s hs
    obtain ⟨o?, before, after, htree, hstmt⟩ :=
      Arena.exists_getElem?_outlineStmts houtlines (k := i) (by simpa using hs)
    exact ⟨o?, columnText i, htree, head?_stmtNodes hstmt, rightAligned_columnText i,
      getElem?_dumpLines hs htree⟩

end Lines

/-- The dumps of a procedure that is built, before and after linking, have one line for each
statement behind the four lines on the procedure, if no name has a line feed. -/
theorem dumpedByLine_of_built (hp : p.Built) (h : p.SingleLined) :
    ∃ trees, p.outlines = some trees ∧
      (∃ text, p.dump = some text ∧ p.DumpedByLine none trees text (p.dumpLines none trees)) ∧
        ∀ r, p.link = .ok r → ∃ text, r.dump = some text ∧
          p.DumpedByLine r.linkage trees text (p.dumpLines r.linkage trees) := by
  obtain ⟨trees, htrees⟩ := hp.wellFormed.toWalkable.exists_outlines
  refine ⟨trees, htrees, h.dumpedByLine hp.labelsNamed htrees none, ?_⟩
  intro r hr
  obtain ⟨_, _, _, -, -, -, rfl⟩ := link_eq_ok.mp hr
  exact h.dumpedByLine hp.labelsNamed htrees _

/-- A label, and a jump back to it by name on the value of a pointer whose text has a line feed. -/
def twoLinePointer : Procedure where
  id := 0
  arena := ⟨#[.pointer "text" "a\nb"]⟩
  labels := #[".top.0"]
  body := #[.label 0, .jump (.name ".top.0") .ifZero (some 0)]

theorem twoLinePointer_built : twoLinePointer.Built := by
  refine ⟨0, none, ?_⟩
  have harena : ({} : Arena).BuildsTo twoLinePointer.arena :=
    Relation.ReflTransGen.refl.tail (.node (.pointer "text" "a\nb") rfl (by decide))
  exact (((buildsTo_build harena).tail (.newLabel "top")).tail (.emit (.label 0) (by decide))).tail
    (.emit (.jump (.name ".top.0") .ifZero (some 0)) (by decide))

theorem twoLinePointer_singleLined : twoLinePointer.SingleLined := by
  constructor
  case name =>
    intro name hname
    cases hname
  case cells =>
    intro c hc
    simp [twoLinePointer] at hc
  case nodes =>
    intro e n hn name hname
    obtain _ | e := e
    · obtain rfl := Option.some.inj hn
      obtain rfl := Option.some.inj hname
      decide
    · cases hn
  case bases =>
    intro l base hl
    obtain _ | l := l
    · have hbase : ".top.0" = "." ++ base ++ "." ++ Nat.repr 0 := Option.some.inj hl
      have hname : OneLine ".top.0" := by decide
      rw [hbase, oneLine_append, oneLine_append, oneLine_append] at hname
      exact hname.1.1.2
    · cases hl
  case targets =>
    intro i name mode value hi
    rcases i with _ | _ | i
    · cases hi
    · cases hi
      decide
    · cases hi

theorem outlines_twoLinePointer :
    twoLinePointer.outlines = some [none, some (.full 0 (.pointer "text" "a\nb") [])] := by
  have hpointer : twoLinePointer.arena.outline 0 ∅ =
      some (.full 0 (.pointer "text" "a\nb") [], ∅) := by
    rw [Arena.outline_eq]
    rfl
  have hbody : twoLinePointer.body.toList =
      [.label 0, .jump (.name ".top.0") .ifZero (some 0)] := rfl
  have hrun : twoLinePointer.body.toList.mapM twoLinePointer.arena.outlineStmt ∅ =
      some ([none, some (.full 0 (.pointer "text" "a\nb") [])], ∅) := by
    rw [hbody, mapM_cons_apply, Arena.outlineStmt_of_none rfl, Option.bind_some, mapM_cons_apply,
      Arena.outlineStmt_of_some rfl, hpointer]
    rfl
  exact outlines_eq_some hrun

/-- The line feed in the pointer's text is shown with a letter. -/
theorem dumpedByLine_twoLinePointer : twoLinePointer.Built ∧ twoLinePointer.SingleLined ∧
    ∃ text, twoLinePointer.dump = some text ∧ text.toList.splitOn '\n' =
      ["proc inline #0", "  args: -", "  locals: -", "  captured: -", "   0  .top.0:",
        "   1  jmpz .top.0 &text \"a\\nb\"", ""].map String.toList := by
  obtain ⟨trees, htrees, ⟨text, htext, h⟩, -⟩ :=
    dumpedByLine_of_built twoLinePointer_built twoLinePointer_singleLined
  obtain rfl := Option.some.inj (htrees.symm.trans outlines_twoLinePointer)
  refine ⟨twoLinePointer_built, twoLinePointer_singleLined, text, htext, ?_⟩
  rw [h.split_eq]
  decide

end Procedure

end StackIR
