import Mathlib.Data.List.Induction
import StackIR.Proofs.Built

/-!
# What leaving a scope appends

A procedure that got its cells by declaring them (`Procedure.DeclaresCells`) has only arguments
among its arguments and only locals among its locals, whatever else was done to it. So leaving its
scope never meets a cell that it does not own, and never stops halfway: it appends the release of
each managed local and then of each managed argument (`Procedure.withReleases`), or nothing at all
in the entry point of the program (`Procedure.releaseAll_of_declaresCells`).
-/

namespace StackIR.Procedure

/-! ## Cells that were declared -/

/-- The cells of the procedure were all declared in it. Its expressions, labels and statements can
be any. -/
inductive DeclaresCells : Procedure → Prop where
  | start {p : Procedure} (hargs : p.args = #[]) (hlocals : p.locals = #[])
      (hcaptured : p.captured = #[]) : DeclaresCells p
  | addArgument {p : Procedure} (h : DeclaresCells p) (d : Declaration) :
      DeclaresCells (p.addArgument d).2
  | addLocal {p : Procedure} (h : DeclaresCells p) (d : Declaration) :
      DeclaresCells (p.addLocal d).2
  | addCaptured {p : Procedure} (h : DeclaresCells p) (d : Declaration) :
      DeclaresCells (p.addCaptured d).2
  /-- Whatever is done to the rest of the procedure leaves its cells alone. -/
  | elsewhere {p q : Procedure} (h : DeclaresCells p) (hargs : q.args = p.args)
      (hlocals : q.locals = p.locals) (hcaptured : q.captured = p.captured) : DeclaresCells q

variable {p : Procedure}

/-- Declared on their own, the cells are those of a procedure that is built. -/
theorem DeclaresCells.built (h : p.DeclaresCells) :
    Built { id := 0, args := p.args, locals := p.locals, captured := p.captured } := by
  induction h with
  | start hargs hlocals hcaptured =>
      rw [hargs, hlocals, hcaptured]
      exact ⟨0, none, Relation.ReflTransGen.refl⟩
  | addArgument _ d ih =>
      obtain ⟨id, name, hbuilds⟩ := ih
      exact ⟨id, name, hbuilds.tail (.addArgument d)⟩
  | addLocal _ d ih =>
      obtain ⟨id, name, hbuilds⟩ := ih
      exact ⟨id, name, hbuilds.tail (.addLocal d)⟩
  | addCaptured _ d ih =>
      obtain ⟨id, name, hbuilds⟩ := ih
      exact ⟨id, name, hbuilds.tail (.addCaptured d)⟩
  | elsewhere _ hargs hlocals hcaptured ih =>
      rw [hargs, hlocals, hcaptured]
      exact ih

/-! ## Releases one after the other -/

/-- The procedure with releases of some cells behind everything else: for each cell, in order, its
slot, a release of that and a statement that evaluates the release. -/
def withReleases (p : Procedure) (cs : List Cell) : Procedure :=
  let slot (i : Nat) : ExprId := p.arena.size + 2 * i
  { p with
    arena := ⟨p.arena.nodes ++
      (cs.zipIdx.flatMap fun (c, i) => [Node.cell c, .release (slot i)]).toArray⟩
    body := p.body ++ (cs.zipIdx.map fun (_, i) => Stmt.expr (slot i + 1)).toArray }

theorem withReleases_nil (p : Procedure) : p.withReleases [] = p := by
  simp [withReleases]

theorem size_arena_withReleases (p : Procedure) (cs : List Cell) :
    (p.withReleases cs).arena.size = p.arena.size + 2 * cs.length := by
  induction cs using List.reverseRecOn with
  | nil => simp [withReleases]
  | append_singleton cs c ih =>
      simp only [withReleases, Arena.size, Array.size_append, List.size_toArray,
        List.zipIdx_append, List.flatMap_append, List.length_append] at ih ⊢
      simp
      omega

/-- One more release comes behind the others. -/
theorem withReleases_concat (p : Procedure) (cs : List Cell) (c : Cell) :
    p.withReleases (cs ++ [c]) = (p.withReleases cs).release c := by
  have hsize := size_arena_withReleases p cs
  unfold release
  rw [hsize]
  simp [withReleases, emit, Arena.add, List.zipIdx_append]

theorem foldl_release_eq (p : Procedure) (cs : List Cell) :
    cs.foldl release p = p.withReleases cs := by
  induction cs using List.reverseRecOn with
  | nil => exact (withReleases_nil p).symm
  | append_singleton cs c ih =>
      rw [List.foldl_append, ih, withReleases_concat]
      rfl

/-! ## Leaving the scope -/

theorem fst_releaseCell_eq_error {c : Cell} {error : ReleaseError} :
    ((releaseCell c).run p).1 = .error error ↔
      (c.storage = .global ∨ c.storage = .captured) ∧ error = .notOwned c.text := by
  rw [releaseCell_run, Cell.isOwned_eq]
  by_cases hforeign : c.storage = .global ∨ c.storage = .captured
  · simp only [hforeign, decide_true, Bool.not_true, Bool.false_eq_true, if_false, true_and,
      Except.error.injEq]
    exact eq_comm
  · simp [hforeign]

/-- A cell that cannot be released leaves the procedure as it is. -/
theorem snd_releaseCell_of_error {c : Cell} {error : ReleaseError}
    (h : ((releaseCell c).run p).1 = .error error) : ((releaseCell c).run p).2 = p := by
  rw [releaseCell_run] at h ⊢
  cases howned : c.isOwned with
  | true => simp [howned] at h
  | false => rfl

/-- Leaving the scope of a procedure that declared its cells succeeds. The entry point of the
program stays as it is, and any other procedure releases its counted or boxed locals and then its
counted arguments, each once. Releasing a single cell fails just if it is global or captured, and
then leaves the procedure as it is. -/
theorem releaseAll_of_declaresCells (h : p.DeclaresCells) :
    releaseAll.run p = (.ok (), if p.isRoot then p else
        p.withReleases ((p.locals.toList ++ p.args.toList).filter fun c =>
          c.refCounted || c.isBoxed)) ∧
      ∀ (q : Procedure) (c : Cell),
        ((∃ error, ((releaseCell c).run q).1 = .error error) ↔
          c.storage = .global ∨ c.storage = .captured) ∧
        ∀ error, ((releaseCell c).run q).1 = .error error →
          error = .notOwned c.text ∧ ((releaseCell c).run q).2 = q := by
  refine ⟨?_, fun q c => ⟨?_, fun error herror => ?_⟩⟩
  · have howned : ∀ c, c ∈ p.locals ∨ c ∈ p.args → c.isOwned = true := h.built.wellFormed.isOwned
    rw [releaseAll_run howned, foldl_release_eq, releasable]
    cases p.isRoot with
    | true => rw [if_pos rfl, if_pos rfl, withReleases_nil]
    | false => rfl
  · simp only [fst_releaseCell_eq_error, exists_and_left, exists_eq, and_true]
  · exact ⟨(fst_releaseCell_eq_error.mp herror).2, snd_releaseCell_of_error herror⟩

/-- A procedure with a plain local, a boxed local, a counted argument and a counted captured cell,
which has evaluated something before. -/
def leaving : Procedure where
  id := 0
  args := #[⟨⟨3, some "a", false, false, true⟩, 0, .argument⟩]
  locals := #[⟨⟨1, some "x", false, true, false⟩, 0, .localVar⟩,
    ⟨⟨2, some "b", true, true, false⟩, 1, .localVar⟩]
  captured := #[⟨⟨4, some "c", false, false, true⟩, 0, .captured⟩]
  arena := ⟨#[.jumpValue]⟩
  body := #[.expr 0]

theorem leaving_declaresCells : leaving.DeclaresCells :=
  .elsewhere (((((DeclaresCells.start (p := { id := 0 }) rfl rfl rfl).addLocal
    ⟨1, some "x", false, true, false⟩).addCaptured ⟨4, some "c", false, false, true⟩).addLocal
      ⟨2, some "b", true, true, false⟩).addArgument ⟨3, some "a", false, false, true⟩) rfl rfl rfl

/-- The box and then the argument are released, and nothing else. -/
theorem releaseAll_leaving : releaseAll.run leaving = (.ok (), { leaving with
      arena := ⟨#[.jumpValue, .cell ⟨⟨2, some "b", true, true, false⟩, 1, .localVar⟩, .release 1,
        .cell ⟨⟨3, some "a", false, false, true⟩, 0, .argument⟩, .release 3]⟩
      body := #[.expr 0, .expr 2, .expr 4] }) ∧
    ((releaseCell ⟨⟨4, some "c", false, false, true⟩, 0, .captured⟩).run leaving).2 = leaving := by
  obtain ⟨hall, hcell⟩ := releaseAll_of_declaresCells leaving_declaresCells
  refine ⟨hall.trans (congrArg _ ?_), ?_⟩
  · decide
  · obtain ⟨hfails, hkeeps⟩ := hcell leaving ⟨⟨4, some "c", false, false, true⟩, 0, .captured⟩
    obtain ⟨error, herror⟩ := hfails.mpr (Or.inr rfl)
    exact (hkeeps error herror).2

end StackIR.Procedure
