import StackIR.Proofs.Dumping
import StackIR.Proofs.ExactLinking

/-!
# Linking only annotates the dump

The dumps of a procedure before and after linking are made of the same lines. A line is a list of
spans of text, and a span may have a note behind it, which only the dump of the linked procedure
shows (`Procedure.annotates_of_built`). There are two kinds of notes: how many jumps go to a label,
on the line that places it, and how often a shared node is used, behind its id.

Before linking a jump shows the name or the handle it was made with, and afterwards the label it
was linked to. Both are the same name, since a jump is linked to a label that its target stands for
(`Procedure.targetText_of_link`). No two labels have the same name, so the jumps linked to a label
are those that show its name (`Procedure.incoming_eq_jumpsShowing`).
-/

namespace StackIR

/-! ## Spans -/

/-- Some text of a dump, with what linking adds behind it. -/
structure Span where
  text : String
  note : String := ""
deriving Repr, DecidableEq

/-- The text of a line, with or without its notes. -/
def lineText (notes : Bool) (line : List Span) : String :=
  String.join (line.map fun s => if notes then s.text ++ s.note else s.text)

/-- The text of lines. -/
def linesText (notes : Bool) (lines : List (List Span)) : String :=
  String.join (lines.map fun line => lineText notes line ++ "\n")

section Spans

variable (notes : Bool)

theorem lineText_cons (s : Span) (line : List Span) :
    lineText notes (s :: line) =
      (if notes then s.text ++ s.note else s.text) ++ lineText notes line := by
  simp [lineText]

theorem lineText_append (line line' : List Span) :
    lineText notes (line ++ line') = lineText notes line ++ lineText notes line' := by
  simp [lineText]

theorem lineText_singleton (text : String) : lineText notes [{ text }] = text := by
  cases notes <;> simp [lineText]

end Spans

/-- What linking adds behind the head of a node. -/
def Node.usesNote (n : Node) (uses? : Option Nat) : String :=
  match n, uses? with
  | .shared _, some uses => " x" ++ uses.repr
  | _, _ => ""

theorem Node.head_eq (n : Node) (e : ExprId) (uses? : Option Nat) :
    n.head e uses? = n.head e none ++ n.usesNote uses? := by
  cases n with
  | shared x =>
      cases uses? with
      | none => exact (String.append_empty).symm
      | some uses => exact String.append_assoc ..
  | _ => exact (String.append_empty).symm

namespace Outline

mutual

/-- The spans of an outline, with the number of uses of a shared node as a note. -/
def spans (uses : ExprId → Option Nat) : Outline → List Span
  | .again e => [{ text := "@" ++ e.repr }]
  | .full e n operands =>
    match n.atom? with
    | some s => [{ text := s }]
    | none =>
      ⟨"(" ++ n.head e none, n.usesNote (uses e)⟩ ::
        (operandSpans uses operands ++ [{ text := ")" }])

/-- The spans of operands, each after a blank. -/
def operandSpans (uses : ExprId → Option Nat) : List Outline → List Span
  | [] => []
  | o :: os => { text := " " } :: (o.spans uses ++ operandSpans uses os)

end

/-- The number of uses of a shared node, as far as notes are shown. -/
def noted (notes : Bool) (uses : ExprId → Option Nat) (e : ExprId) : Option Nat :=
  if notes then uses e else none

theorem head_noted (notes : Bool) (uses : ExprId → Option Nat) (n : Node) (e : ExprId) :
    "(" ++ n.head e (noted notes uses e) =
      if notes then "(" ++ n.head e none ++ n.usesNote (uses e) else "(" ++ n.head e none := by
  cases notes with
  | true =>
      rw [if_pos rfl, String.append_assoc, ← n.head_eq]
      rfl
  | false => rfl

mutual

/-- The text of an outline is that of its spans, with and without notes. -/
theorem text_eq_lineText (notes : Bool) (uses : ExprId → Option Nat) :
    (o : Outline) → o.text (noted notes uses) = lineText notes (o.spans uses)
  | .again e => by rw [text, spans, lineText_singleton]
  | .full e n operands => by
      rw [text, spans]
      cases n.atom? with
      | some s =>
          dsimp only
          rw [lineText_singleton]
      | none =>
          dsimp only
          rw [lineText_cons, lineText_append, lineText_singleton, ← operandsText_eq_lineText,
            head_noted, String.append_assoc]

theorem operandsText_eq_lineText (notes : Bool) (uses : ExprId → Option Nat) :
    (os : List Outline) →
      operandsText (noted notes uses) os = lineText notes (operandSpans uses os)
  | [] => rfl
  | o :: os => by
      rw [operandsText, operandSpans, lineText_cons, lineText_append, text_eq_lineText,
        operandsText_eq_lineText, String.append_assoc]
      cases notes <;> rfl

end

mutual

/-- A note in an outline stands behind the id of a shared node. -/
theorem of_mem_spans {uses : ExprId → Option Nat} {s : Span} (hs : s.note ≠ "") :
    (o : Outline) → s ∈ o.spans uses →
      ∃ e k, uses e = some k ∧ s = ⟨"(shared#" ++ e.repr, " x" ++ k.repr⟩
  | .again e, h => by
      rw [spans, List.mem_singleton] at h
      exact absurd (by rw [h]) hs
  | .full e n operands, h => by
      rw [spans] at h
      cases hatom : n.atom? with
      | some t =>
          rw [hatom] at h
          obtain rfl := List.mem_singleton.mp h
          exact absurd rfl hs
      | none =>
          rw [hatom] at h
          simp only [List.mem_cons, List.mem_append, List.not_mem_nil, or_false] at h
          rcases h with rfl | h | rfl
          · cases n with
            | shared x =>
                cases huses : uses e with
                | none => simp [huses, Node.usesNote] at hs
                | some k =>
                    have htext : "(" ++ (Node.shared x).head e none = "(shared#" ++ e.repr :=
                      (String.append_assoc ..).symm
                    exact ⟨e, k, huses, by rw [htext, Node.usesNote]⟩
            | _ => exact absurd rfl hs
          · exact of_mem_operandSpans hs operands h
          · exact absurd rfl hs

theorem of_mem_operandSpans {uses : ExprId → Option Nat} {s : Span} (hs : s.note ≠ "") :
    (os : List Outline) → s ∈ operandSpans uses os →
      ∃ e k, uses e = some k ∧ s = ⟨"(shared#" ++ e.repr, " x" ++ k.repr⟩
  | [], h => by simp [operandSpans] at h
  | o :: os, h => by
      simp only [operandSpans, List.mem_cons, List.mem_append] at h
      rcases h with rfl | h | h
      · exact absurd rfl hs
      · exact of_mem_spans hs o h
      · exact of_mem_operandSpans hs os h

end

end Outline

/-! ## Names of targets -/

/-- The name that the dump shows as the target of a jump. -/
def LinkedProcedure.shownTarget? (r : LinkedProcedure) (i : Nat) : Option String :=
  (r.procedure.body[i]?.bind Stmt.target?).map (r.procedure.targetText (r.target? i))

/-- The number of jumps that the dump shows with a name as their target. -/
def LinkedProcedure.jumpsShowing (r : LinkedProcedure) (name : String) : Nat :=
  (List.range r.procedure.body.size).countP fun i => r.shownTarget? i = some name

namespace Procedure

variable {p : Procedure} {r : LinkedProcedure}

/-- A target is shown by the name of the label it stands for. -/
theorem Denotes.targetText_eq {target : Target} {l : LabelId} (h : p.Denotes target l) :
    p.targetText none target = p.labelName l := by
  cases target with
  | label k =>
      obtain rfl : k = l := h
      rfl
  | name name => exact (labelName_of_getElem? h).symm

/-- Every jump of a linked procedure has a label that its target stands for. -/
theorem exists_target_of_link (hnamed : p.LabelsNamed) (hr : p.link = .ok r) {i : Nat}
    {target : Target} {mode : JumpMode} {value : Option ExprId}
    (hi : p.body[i]? = some (.jump target mode value)) :
    ∃ l, r.target? i = some l ∧ p.Denotes target l := by
  have hexact := linksExactly_of_link hnamed hr
  obtain ⟨l, hl⟩ : ∃ l, p.Denotes target l := by
    cases target with
    | label l => exact ⟨l, rfl⟩
    | name name =>
        obtain ⟨l, hl, -⟩ := (linkable_of_link hnamed hr).name_placed i name mode value hi
        exact ⟨l, hl⟩
  exact ⟨l, (hexact.target?_eq_some_iff i l).mpr ⟨target, mode, value, hi, hl⟩, hl⟩

/-- A jump shows the same name before and after linking. -/
theorem targetText_of_link (hnamed : p.LabelsNamed) (hr : p.link = .ok r) {i : Nat}
    {target : Target} {mode : JumpMode} {value : Option ExprId}
    (hi : p.body[i]? = some (.jump target mode value)) :
    p.targetText (r.target? i) target = p.targetText none target := by
  obtain ⟨l, hl, hdenotes⟩ := exists_target_of_link hnamed hr hi
  rw [hl, hdenotes.targetText_eq]
  rfl

/-- The jumps that show the name of a label are those linked to it. -/
theorem Built.shownTarget?_eq_some_iff (hp : p.Built) (hr : p.link = .ok r) {l : LabelId}
    (hl : l < p.labels.size) (i : Nat) :
    r.shownTarget? i = some (p.labelName l) ↔ r.target? i = some l := by
  have hnamed := hp.labelsNamed
  have hexact := linksExactly_of_link hnamed hr
  unfold LinkedProcedure.shownTarget?
  rw [hexact.procedure_eq]
  constructor
  · intro hshown
    obtain ⟨target, htarget, hname⟩ := Option.map_eq_some_iff.mp hshown
    obtain ⟨s, hs, htarget⟩ := Option.bind_eq_some_iff.mp htarget
    cases s with
    | jump target' mode value =>
        obtain rfl := Option.some.inj htarget
        obtain ⟨k, hk, -⟩ := exists_target_of_link hnamed hr hs
        obtain ⟨j, -, hj⟩ := exists_placement_of_link hnamed hr hk
        have hlt := (linkable_of_link hnamed hr).made j k hj
        rw [hk] at hname ⊢
        rw [hp.labelName_injective hlt hl hname]
    | _ => cases htarget
  · intro htarget
    obtain ⟨target, mode, value, hs, -⟩ := (hexact.target?_eq_some_iff i l).mp htarget
    rw [hs, htarget]
    rfl

theorem Built.incoming_eq_jumpsShowing (hp : p.Built) (hr : p.link = .ok r) {l : LabelId}
    (hl : l < p.labels.size) : r.incoming l = r.jumpsShowing (p.labelName l) := by
  have hexact := linksExactly_of_link hp.labelsNamed hr
  rw [hexact.incoming_eq, LinkedProcedure.jumpsShowing, hexact.procedure_eq]
  refine List.countP_congr fun i _ => ?_
  rw [decide_eq_true_iff, decide_eq_true_iff]
  exact (hp.shownTarget?_eq_some_iff hr hl i).symm

end Procedure

/-! ## Lines -/

namespace LinkedProcedure

/-- What linking adds to a statement that places a label. -/
def labelNote (r : LinkedProcedure) : Stmt → String
  | .label l => "  ; " ++ (r.incoming l).repr ++ " incoming"
  | _ => ""

/-- The line of a statement: what stands before its expression, and the expression. -/
def stmtLine (r : LinkedProcedure) (i : Nat) (s : Stmt) (o? : Option Outline) : List Span :=
  ⟨columnText i ++ "  " ++ r.procedure.stmtText none i s none, r.labelNote s⟩ ::
    o?.elim [] (Outline.spans fun e => r.linkage.sharedUses[e]?)

/-- The lines of the dump, given the outline of each statement's expression. -/
def dumpSpans (r : LinkedProcedure) (trees : List (Option Outline)) : List (List Span) :=
  (r.procedure.dumpLines none []).map (fun line => [{ text := line }]) ++
    (r.procedure.body.toList.zip trees).zipIdx.map fun ((s, o?), i) => r.stmtLine i s o?

end LinkedProcedure

namespace Procedure

variable {p : Procedure} {r : LinkedProcedure}

/-- What linking found, as far as notes are shown. -/
def notedLink (notes : Bool) (r : LinkedProcedure) : Option Linkage :=
  if notes then some r.linkage else none

/-- Before its expression, a line differs only by the note of a label. -/
theorem stmtText_notedLink (hnamed : p.LabelsNamed) (hr : p.link = .ok r) (notes : Bool) {i : Nat}
    {s : Stmt} (hs : p.body[i]? = some s) :
    p.stmtText (notedLink notes r) i s none =
      if notes then p.stmtText none i s none ++ r.labelNote s else p.stmtText none i s none := by
  cases notes with
  | false => rfl
  | true =>
      rw [if_pos rfl]
      cases s with
      | expr e => exact String.append_empty.symm
      | label l =>
          show p.labelName l ++ ":" ++ r.labelNote (.label l) = p.labelName l ++ ":" ++ "" ++ _
          rw [String.append_empty]
      | jump target mode value =>
          have htarget := targetText_of_link hnamed hr hs
          show mode.text ++ " " ++ p.targetText (r.target? i) target ++ _ = _
          rw [htarget]
          exact String.append_empty.symm
      | stackEmpty => exact String.append_empty.symm

theorem stmtText_eq_lineText (hnamed : p.LabelsNamed) (hr : p.link = .ok r) (notes : Bool)
    {i : Nat} {s : Stmt} (hs : p.body[i]? = some s) {o? : Option Outline}
    (ho : s.expr? = none → o? = none) :
    columnText i ++ "  " ++ p.stmtText (notedLink notes r) i s o? =
      lineText notes (r.stmtLine i s o?) := by
  have huses : (fun e => (notedLink notes r).bind (·.sharedUses[e]?)) =
      Outline.noted notes fun e => r.linkage.sharedUses[e]? := by
    funext e
    cases notes <;> rfl
  have hexpr : joined (o?.elim [] (Outline.pieces fun e =>
      (notedLink notes r).bind (·.sharedUses[e]?))) =
      lineText notes (o?.elim [] (Outline.spans fun e => r.linkage.sharedUses[e]?)) := by
    cases o? with
    | none => rfl
    | some o => rw [huses, Option.elim_some, Option.elim_some, ← o.text_eq, o.text_eq_lineText]
  rw [stmtText_eq p _ i ho, hexpr, LinkedProcedure.stmtLine, lineText_cons,
    (linksExactly_of_link hnamed hr).procedure_eq, stmtText_notedLink hnamed hr notes hs]
  cases notes <;> simp only [String.append_assoc, if_true, if_false, Bool.false_eq_true]

/-- The lines of the dump, without the notes before linking and with them afterwards. -/
theorem map_dumpSpans (hnamed : p.LabelsNamed) (hr : p.link = .ok r) (notes : Bool)
    {trees : List (Option Outline)} (htrees : p.outlines = some trees) :
    (r.dumpSpans trees).map (lineText notes) = p.dumpLines (notedLink notes r) trees := by
  obtain ⟨shown, houtlines⟩ := exists_outlineStmts htrees
  have hhead : ((p.dumpLines none []).map fun line => [({ text := line } : Span)]).map
      (lineText notes) = p.dumpLines none [] := by
    simp [Function.comp_def, lineText_singleton]
  have hbody : ((p.body.toList.zip trees).zipIdx.map fun ((s, o?), i) => r.stmtLine i s o?).map
      (lineText notes) = (p.body.toList.zip trees).zipIdx.map fun ((s, o?), i) =>
        columnText i ++ "  " ++ p.stmtText (notedLink notes r) i s o? := by
    rw [List.map_map]
    refine List.map_congr_left ?_
    rintro ⟨⟨s, o?⟩, i⟩ hmem
    obtain ⟨hs, ho⟩ := List.getElem?_zip_eq_some.mp (List.mk_mem_zipIdx_iff_getElem?.mp hmem)
    refine (stmtText_eq_lineText hnamed hr notes (by simpa using hs) fun hnone => ?_).symm
    exact Option.some.inj (ho.symm.trans (Arena.getElem?_outlineStmts_of_none houtlines hs hnone))
  rw [dumpLines_eq, LinkedProcedure.dumpSpans, (linksExactly_of_link hnamed hr).procedure_eq,
    List.map_append, hhead, hbody]

theorem dumpWith_notedLink (hnamed : p.LabelsNamed) (hr : p.link = .ok r) (notes : Bool)
    {trees : List (Option Outline)} (htrees : p.outlines = some trees) :
    p.dumpWith (notedLink notes r) = some (linesText notes (r.dumpSpans trees)) := by
  rw [dumpWith, htrees, Option.map_some, ← map_dumpSpans hnamed hr notes htrees, List.map_map]
  rfl

/-- The line of a statement stands behind the four lines on the procedure. -/
theorem getElem?_dumpSpans {trees : List (Option Outline)} (hr : r.procedure = p) {i : Nat}
    {s : Stmt} {o? : Option Outline} (hs : p.body[i]? = some s) (ho : trees[i]? = some o?) :
    (r.dumpSpans trees)[4 + i]? = some (r.stmtLine i s o?) := by
  have hzip : (p.body.toList.zip trees)[i]? = some (s, o?) :=
    List.getElem?_zip_eq_some.mpr ⟨by simpa using hs, ho⟩
  have hline := getElem?_append_map_zipIdx
    ((p.dumpLines none []).map fun line => [({ text := line } : Span)])
    (p.body.toList.zip trees) (fun ((s, o?), i) => r.stmtLine i s o?) i
  rw [List.length_map, length_dumpLines_nil, hzip] at hline
  rw [LinkedProcedure.dumpSpans, hr]
  exact hline

theorem of_mem_dumpSpans {trees : List (Option Outline)} (hr : r.procedure = p)
    {line : List Span} (h : line ∈ r.dumpSpans trees) {s : Span} (hs : s ∈ line)
    (hnote : s.note ≠ "") :
    (∃ i l, p.body[i]? = some (.label l) ∧ (r.dumpSpans trees)[4 + i]? = some line) ∨
      ∃ e, s = ⟨"(shared#" ++ e.repr, " x" ++ (r.totalUses e).repr⟩ := by
  rcases List.mem_append.mp h with hhead | hbody
  · obtain ⟨text, -, rfl⟩ := List.mem_map.mp hhead
    rw [List.mem_singleton.mp hs] at hnote
    exact absurd rfl hnote
  · obtain ⟨⟨⟨st, o?⟩, i⟩, hmem, rfl⟩ := List.mem_map.mp hbody
    obtain ⟨hst, ho⟩ := List.getElem?_zip_eq_some.mp (List.mk_mem_zipIdx_iff_getElem?.mp hmem)
    rw [hr] at hst
    rcases List.mem_cons.mp hs with rfl | hs
    · cases st with
      | label l =>
          refine Or.inl ⟨i, l, by simpa using hst, ?_⟩
          exact getElem?_dumpSpans hr (by simpa using hst) ho
      | _ => exact absurd rfl hnote
    · cases o? with
      | none => cases hs
      | some o =>
          obtain ⟨e, k, huses, rfl⟩ := Outline.of_mem_spans hnote o hs
          refine Or.inr ⟨e, ?_⟩
          rw [LinkedProcedure.totalUses, Std.HashMap.getD_eq_getD_getElem?, huses,
            Option.getD_some]

/-! ## Both dumps -/

/-- The dumps of a procedure before and after linking are the same lines, which the notes are added
to. -/
structure Annotates (p : Procedure) (r : LinkedProcedure) (lines : List (List Span)) : Prop where
  dump_eq : p.dump = some (linesText false lines)
  linked_dump_eq : r.dump = some (linesText true lines)
  /-- The note of a label is the number of jumps that show its name. -/
  label_line : ∀ i l, p.body[i]? = some (.label l) → lines[4 + i]? =
    some [⟨columnText i ++ "  " ++ p.labelName l ++ ":",
      "  ; " ++ (r.jumpsShowing (p.labelName l)).repr ++ " incoming"⟩]
  /-- A jump shows the name of its target before its value, if it has one. -/
  jump_line : ∀ i target mode value, p.body[i]? = some (.jump target mode value) →
    ∃ name rest, r.shownTarget? i = some name ∧ lines[4 + i]? =
      some ({ text := columnText i ++ "  " ++ mode.text ++ " " ++ name ++
        if value.isSome then " " else "" } :: rest) ∧ (value = none → rest = [])
  /-- Nothing but labels and shared nodes has a note. -/
  note_cases : ∀ line ∈ lines, ∀ s ∈ line, s.note ≠ "" →
    (∃ i l, p.body[i]? = some (.label l) ∧ lines[4 + i]? = some line) ∨
      ∃ e, s = ⟨"(shared#" ++ e.repr, " x" ++ (r.totalUses e).repr⟩

/-- Linking only annotates the dump of a procedure that is built. -/
theorem annotates_of_built (hp : p.Built) (hr : p.link = .ok r) :
    ∃ trees, p.outlines = some trees ∧ p.Annotates r (r.dumpSpans trees) := by
  have hnamed := hp.labelsNamed
  have hproc := (linksExactly_of_link hnamed hr).procedure_eq
  obtain ⟨trees, htrees⟩ := hp.wellFormed.toWalkable.exists_outlines
  obtain ⟨shown, houtlines⟩ := exists_outlineStmts htrees
  have htree : ∀ {i : Nat} {s : Stmt}, p.body[i]? = some s → s.expr? = none →
      trees[i]? = some none := by
    intro i s hs hnone
    exact Arena.getElem?_outlineStmts_of_none houtlines (by simpa using hs) hnone
  refine ⟨trees, htrees, ?_⟩
  constructor
  case dump_eq => exact dumpWith_notedLink hnamed hr false htrees
  case linked_dump_eq =>
    rw [LinkedProcedure.dump, hproc]
    exact dumpWith_notedLink hnamed hr true htrees
  case label_line =>
    intro i l hi
    have hlt : l < p.labels.size := (linkable_of_link hnamed hr).made i l hi
    rw [getElem?_dumpSpans hproc hi (htree hi rfl), LinkedProcedure.stmtLine, hproc,
      ← hp.incoming_eq_jumpsShowing hr hlt]
    simp [stmtText, LinkedProcedure.labelNote, String.append_assoc]
  case jump_line =>
    intro i target mode value hi
    obtain ⟨o?, before, after, ho, hstmt⟩ :=
      Arena.exists_getElem?_outlineStmts houtlines (k := i) (by simpa using hi)
    have hshown : r.shownTarget? i = some (p.targetText none target) := by
      rw [LinkedProcedure.shownTarget?, hproc, hi, ← targetText_of_link hnamed hr hi]
      rfl
    refine ⟨_, o?.elim [] (Outline.spans fun e => r.linkage.sharedUses[e]?), hshown, ?_, ?_⟩
    · rw [getElem?_dumpSpans hproc hi ho, LinkedProcedure.stmtLine, hproc]
      cases value <;> simp [stmtText, LinkedProcedure.labelNote, String.append_assoc]
    · rintro rfl
      rw [(Arena.of_outlineStmt_none rfl hstmt).1]
      rfl
  case note_cases =>
    intro line hline s hs hnote
    exact of_mem_dumpSpans hproc hline hs hnote

/-- The jump made with a name shows the label it goes to, and is the only one to show it. -/
theorem annotates_forwardAndBack : ∃ r trees, forwardAndBack.link = .ok r ∧
    forwardAndBack.outlines = some trees ∧ forwardAndBack.Annotates r (r.dumpSpans trees) ∧
      (r.dumpSpans trees)[5]? = some [{ text := "   1  jmpz .end.1" }] ∧
        (r.dumpSpans trees)[7]? = some [⟨"   3  .end.1:", "  ; 1 incoming"⟩] := by
  obtain ⟨r, hr⟩ := forwardAndBack_linkable.exists_link forwardAndBack_built.wellFormed.toWalkable
    forwardAndBack_built.labelsNamed
  have hexact := linksExactly_of_link forwardAndBack_built.labelsNamed hr
  obtain ⟨trees, htrees, h⟩ := annotates_of_built forwardAndBack_built hr
  have hshows : ∀ i, r.shownTarget? i = some ".end.1" ↔ i = 1 := by
    intro i
    have hshown := forwardAndBack_built.shownTarget?_eq_some_iff hr (l := 1) (by decide) i
    refine hshown.trans ((hexact.target?_eq_some_iff i 1).trans ⟨?_, ?_⟩)
    · rintro ⟨target, mode, value, hi, hdenotes⟩
      rcases i with _ | _ | _ | _ | i <;> simp [forwardAndBack] at hi ⊢
      rw [← hi.1] at hdenotes
      cases hdenotes
    · rintro rfl
      exact ⟨_, _, _, rfl, rfl⟩
  refine ⟨r, trees, hr, htrees, h, ?_, ?_⟩
  · obtain ⟨name, rest, hname, hline, hrest⟩ := h.jump_line 1 _ _ _ rfl
    obtain rfl := Option.some.inj (hname.symm.trans ((hshows 1).mpr rfl))
    rw [hline, hrest rfl]
    decide
  · have hcount : r.jumpsShowing ".end.1" = 1 := by
      unfold LinkedProcedure.jumpsShowing
      simp only [hexact.procedure_eq, hshows]
      decide
    have hline := h.label_line 3 1 rfl
    rw [show forwardAndBack.labelName 1 = ".end.1" from rfl, hcount] at hline
    rw [hline]
    decide

end Procedure

end StackIR
