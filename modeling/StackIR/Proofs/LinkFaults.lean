import StackIR.Proofs.ExactLinking

/-!
# Which error linking reports

What is wrong with a label or a jump can be read off the body and the label table. A statement that
places a label is faulty if the label was never made or an earlier statement places it
(`Procedure.labelFault?`); a jump is faulty if its handle was never made, or if what it names is
placed nowhere (`Procedure.jumpFault?`). Linking reports the first faulty label of the body, and
only where no label is faulty the first faulty jump (`Procedure.link_eq_error_iff`).

Entering the labels of the first statements stops at the first fault among these. That is an
induction on how many statements have been entered, with the table of their placements
(`Places`) as its invariant.
-/

namespace StackIR.Procedure

variable {p : Procedure}

/-! ## Faults -/

/-- What is wrong with the statement at a position, if it places a label. -/
def labelFault? (p : Procedure) (i : Nat) : Option LinkError :=
  match p.body[i]? with
  | some (.label l) =>
    if p.labels.size ≤ l then some (.unknownLabel l i)
    else if .label l ∈ p.body.toList.take i then some (.duplicateLabel (p.labelName l) i)
    else none
  | _ => none

/-- What is wrong with the statement at a position, if it is a jump. A handle that was made but is
placed nowhere is told of by its name. -/
def jumpFault? (p : Procedure) (i : Nat) : Option LinkError :=
  match p.body[i]? with
  | some (.jump (.label l) _ _) =>
    if p.labels.size ≤ l then some (.unknownLabel l i)
    else if .label l ∈ p.body.toList then none
    else some (.undefinedLabel (p.labelName l) i)
  | some (.jump (.name name) _ _) =>
    if ∃ l < p.labels.size, p.labels[l]? = some name ∧ .label l ∈ p.body.toList then none
    else some (.undefinedLabel name i)
  | _ => none

/-- The first position with a fault has this one. -/
def IsFirst (fault? : Nat → Option LinkError) (error : LinkError) : Prop :=
  ∃ i, fault? i = some error ∧ ∀ j < i, fault? j = none

theorem IsFirst.unique {fault? : Nat → Option LinkError} {error error' : LinkError}
    (h : IsFirst fault? error) (h' : IsFirst fault? error') : error = error' := by
  obtain ⟨i, hi, hbefore⟩ := h
  obtain ⟨i', hi', hbefore'⟩ := h'
  rcases Nat.lt_trichotomy i i' with hlt | rfl | hlt
  · rw [hbefore' i hlt] at hi
    cases hi
  · exact Option.some.inj (hi.symm.trans hi')
  · rw [hbefore i' hlt] at hi'
    cases hi'

theorem IsFirst.not_forall_none {fault? : Nat → Option LinkError} {error : LinkError}
    (h : IsFirst fault? error) : ¬∀ i, fault? i = none := by
  intro hnone
  obtain ⟨i, hi, -⟩ := h
  rw [hnone i] at hi
  cases hi

/-! ## Labels -/

section Labels

variable {placed : Array (Option Nat)} {k : Nat}

/-- The first statements have no fault if their labels can be entered. -/
theorem Places.labelFault?_eq_none (h : Places p.labels.size (p.body.toList.take k) placed)
    {i : Nat} (hi : i < k) : p.labelFault? i = none := by
  unfold labelFault?
  split
  next l hl =>
      have hget : (p.body.toList.take k)[i]? = some (Stmt.label l) := by
        rw [List.getElem?_take_of_lt hi, Array.getElem?_toList, hl]
      rw [if_neg (Nat.not_le.mpr (h.lt hget)), if_neg]
      intro hmem
      obtain ⟨j, hj⟩ := List.mem_iff_getElem?.mp hmem
      obtain ⟨hji, hj⟩ : j < i ∧ p.body.toList[j]? = some (Stmt.label l) := by
        rw [List.getElem?_take] at hj
        split at hj
        next hji => exact ⟨hji, hj⟩
        next => cases hj
      have hget' : (p.body.toList.take k)[j]? = some (Stmt.label l) := by
        rw [List.getElem?_take_of_lt (Nat.lt_trans hji hi), hj]
      exact absurd (h.unique hget' hget) (Nat.ne_of_lt hji)
  next => rfl

/-- Entering the next statement fails with what is wrong with it. -/
theorem Places.placeLabel_eq_error_iff
    (h : Places p.labels.size (p.body.toList.take k) placed) {s : Stmt} (hs : p.body[k]? = some s)
    (error : LinkError) :
    p.placeLabel placed (s, k) = .error error ↔ p.labelFault? k = some error := by
  unfold labelFault?
  rw [hs]
  cases s with
  | label l =>
      have hmem : Stmt.label l ∈ p.body.toList.take k ↔ ∃ j, placed[l]? = some (some j) := by
        simp only [h.eq_some_iff, List.mem_iff_getElem?]
      have hsize := h.size_eq
      rcases hl : placed[l]? with _ | _ | j
      · have hle : p.labels.size ≤ l := hsize ▸ Array.getElem?_eq_none_iff.mp hl
        simp [placeLabel, hl, hle]
      · have hlt : l < p.labels.size := hsize ▸ (Array.getElem?_eq_some_iff.mp hl).1
        simp [placeLabel, hl, hmem, Nat.not_le.mpr hlt]
      · have hlt : l < p.labels.size := hsize ▸ (Array.getElem?_eq_some_iff.mp hl).1
        simp [placeLabel, hl, hmem, Nat.not_le.mpr hlt]
  | _ => simp [placeLabel]

end Labels

/-- Entering the first `k` statements yields their placements, or stops at the first faulty one. -/
theorem foldlM_placeLabel_take (p : Procedure) (k : Nat) :
    (∃ placed, (p.body.toList.take k).zipIdx.foldlM p.placeLabel
        (Array.replicate p.labels.size none) = .ok placed ∧
      Places p.labels.size (p.body.toList.take k) placed) ∨
    ∃ error, (p.body.toList.take k).zipIdx.foldlM p.placeLabel
        (Array.replicate p.labels.size none) = .error error ∧ IsFirst p.labelFault? error := by
  induction k with
  | zero => exact Or.inl ⟨_, rfl, Places.nil _⟩
  | succ k ih =>
      rcases hs : p.body.toList[k]? with _ | s
      · rw [List.take_add_one, hs, Option.toList_none, List.append_nil]
        exact ih
      · have hlen : (p.body.toList.take k).length = k :=
          List.length_take_of_le (Nat.le_of_lt (List.getElem?_eq_some_iff.mp hs).1)
        rw [List.take_add_one, hs, Option.toList_some, List.zipIdx_append, List.foldlM_append]
        rcases ih with ⟨placed, hfold, hplaces⟩ | ⟨error, hfold, hfirst⟩
        · have hstep := placeLabel_spec hplaces s
          rw [hlen] at hstep
          rw [hfold, hlen, Nat.zero_add, List.zipIdx_singleton]
          rcases hstep with ⟨placed', hok, hplaces'⟩ | ⟨error, herror, -⟩
          · exact Or.inl ⟨placed', by simp [bind, Except.bind, hok, pure, Except.pure], hplaces'⟩
          · refine Or.inr ⟨error, by simp [bind, Except.bind, herror], k, ?_, ?_⟩
            · exact (hplaces.placeLabel_eq_error_iff (by simpa using hs) error).mp herror
            · exact fun j hj => hplaces.labelFault?_eq_none hj
        · rw [hfold]
          exact Or.inr ⟨error, rfl, hfirst⟩

theorem labelFault?_of_placements {placed : Array (Option Nat)} (h : p.placements = .ok placed)
    (i : Nat) : p.labelFault? i = none := by
  have hplaces := places_of_placements h
  rw [← List.take_of_length_le (Nat.le_max_right (i + 1) p.body.toList.length)] at hplaces
  exact hplaces.labelFault?_eq_none (Nat.le_max_left _ _)

theorem isFirst_of_placements_eq_error {error : LinkError} (h : p.placements = .error error) :
    IsFirst p.labelFault? error := by
  have htake := p.foldlM_placeLabel_take p.body.toList.length
  rw [List.take_length] at htake
  rcases htake with ⟨placed, hok, -⟩ | ⟨error', herror, hfirst⟩
  · cases hok.symm.trans h
  · obtain rfl := Except.error.inj (herror.symm.trans h)
    exact hfirst

/-! ## Jumps -/

/-- A list of checks fails with the error of the first that fails. -/
theorem first_of_mapM_eq_error {ε α β : Type} {f : α → Except ε β} {xs : List α} {error : ε}
    (h : xs.mapM f = .error error) :
    ∃ (i : Nat) (x : α), xs[i]? = some x ∧ f x = .error error ∧
      ∀ j < i, ∀ y, xs[j]? = some y → ∃ v, f y = .ok v := by
  induction xs with
  | nil => cases h
  | cons x xs ih =>
      rw [List.mapM_cons] at h
      cases hx : f x with
      | error error' =>
          rw [hx] at h
          obtain rfl := Except.error.inj h
          exact ⟨0, x, rfl, hx, fun j hj => absurd hj (Nat.not_lt_zero j)⟩
      | ok v =>
          cases hxs : xs.mapM f with
          | ok vs => simp [hx, hxs, bind, Except.bind, pure, Except.pure] at h
          | error error' =>
              simp only [hx, hxs, bind, Except.bind, Except.error.injEq] at h
              obtain ⟨i, y, hy, hfy, hbefore⟩ := ih (h ▸ hxs)
              refine ⟨i + 1, y, hy, hfy, fun j hj z hz => ?_⟩
              cases j with
              | zero => exact ⟨v, Option.some.inj hz ▸ hx⟩
              | succ j => exact hbefore j (Nat.lt_of_succ_lt_succ hj) z hz

/-- Looking for the target of a statement fails with what is wrong with it. -/
theorem Places.findStmtTarget_eq_error_iff {placed : Array (Option Nat)}
    (h : Places p.labels.size p.body.toList placed) (hnamed : p.LabelsNamed) {i : Nat} {s : Stmt}
    (hs : p.body[i]? = some s) (error : LinkError) :
    p.findStmtTarget placed (p.placedByName placed) (s, i) = .error error ↔
      p.jumpFault? i = some error := by
  unfold jumpFault?
  rw [hs]
  have hmem : ∀ l, Stmt.label l ∈ p.body.toList ↔ ∃ j, placed[l]? = some (some j) := fun l => by
    simp only [h.eq_some_iff, List.mem_iff_getElem?]
  cases s with
  | jump target mode value =>
      cases target with
      | label l =>
          have hsize := h.size_eq
          rcases hl : placed[l]? with _ | _ | j
          · have hle : p.labels.size ≤ l := hsize ▸ Array.getElem?_eq_none_iff.mp hl
            simp [findStmtTarget, findTarget, hl, hle, Functor.map, Except.map]
          · have hlt : l < p.labels.size := hsize ▸ (Array.getElem?_eq_some_iff.mp hl).1
            simp [findStmtTarget, findTarget, hl, hmem, Nat.not_le.mpr hlt, Functor.map, Except.map]
          · have hlt : l < p.labels.size := hsize ▸ (Array.getElem?_eq_some_iff.mp hl).1
            simp [findStmtTarget, findTarget, hl, hmem, Nat.not_le.mpr hlt, Functor.map, Except.map]
      | name name =>
          have hfound : (∃ l < p.labels.size, p.labels[l]? = some name ∧
              Stmt.label l ∈ p.body.toList) ↔ ∃ l, (p.placedByName placed)[name]? = some l := by
            simp only [h.getElem?_placedByName hnamed, List.mem_iff_getElem?]
            exact exists_congr fun l =>
              and_iff_right_of_imp fun hl => (Array.getElem?_eq_some_iff.mp hl.1).1
          dsimp only
          rcases hname : (p.placedByName placed)[name]? with _ | l
          · have hnot : ¬∃ l, (p.placedByName placed)[name]? = some l := by simp [hname]
            rw [if_neg (mt hfound.mp hnot)]
            simp [findStmtTarget, findTarget, hname, Functor.map, Except.map]
          · rw [if_pos (hfound.mpr ⟨l, hname⟩)]
            simp [findStmtTarget, findTarget, hname, Functor.map, Except.map]
  | _ => simp [findStmtTarget]

section Targets

variable {placed : Array (Option Nat)}

theorem jumpFault?_of_findTargets (h : Places p.labels.size p.body.toList placed)
    (hnamed : p.LabelsNamed) {targets : Array (Option LabelId)}
    (htargets : p.findTargets placed = .ok targets) (i : Nat) : p.jumpFault? i = none := by
  rcases hs : p.body[i]? with _ | s
  · simp [jumpFault?, hs]
  · obtain ⟨target?, -, hok⟩ := getElem?_of_findTargets htargets (by simpa using hs)
    refine Option.eq_none_iff_forall_ne_some.mpr fun error herror => ?_
    rw [← h.findStmtTarget_eq_error_iff hnamed hs, hok] at herror
    cases herror

theorem isFirst_of_findTargets_eq_error (h : Places p.labels.size p.body.toList placed)
    (hnamed : p.LabelsNamed) {error : LinkError} (herror : p.findTargets placed = .error error) :
    IsFirst p.jumpFault? error := by
  have hrun : p.body.toList.zipIdx.mapM (p.findStmtTarget placed (p.placedByName placed)) =
      .error error := by
    unfold findTargets at herror
    cases hm : p.body.toList.zipIdx.mapM (p.findStmtTarget placed (p.placedByName placed)) with
    | ok targets => simp [hm, Functor.map, Except.map] at herror
    | error error' => simpa [hm, Functor.map, Except.map] using herror
  obtain ⟨i, ⟨s, k⟩, hi, hfails, hbefore⟩ := first_of_mapM_eq_error hrun
  obtain ⟨hs, rfl⟩ : p.body[i]? = some s ∧ i = k := by simpa using hi
  refine ⟨i, (h.findStmtTarget_eq_error_iff hnamed hs error).mp hfails, fun j hj => ?_⟩
  rcases ht : p.body[j]? with _ | t
  · simp [jumpFault?, ht]
  · obtain ⟨v, hv⟩ := hbefore j hj (t, j) (by simpa using ht)
    refine Option.eq_none_iff_forall_ne_some.mpr fun error' herror' => ?_
    rw [← h.findStmtTarget_eq_error_iff hnamed ht, hv] at herror'
    cases herror'

end Targets

/-! ## Linking -/

/-- What linking a procedure that is built tells of its faults, be it an error or none. -/
theorem Built.link_faults (hp : p.Built) :
    (∀ r, p.link = .ok r → (∀ i, p.labelFault? i = none) ∧ ∀ i, p.jumpFault? i = none) ∧
      ∀ error, p.link = .error error → IsFirst p.labelFault? error ∨
        (∀ i, p.labelFault? i = none) ∧ IsFirst p.jumpFault? error := by
  constructor
  · intro r hr
    obtain ⟨placed, targets, uses, hplaced, htargets, -, -⟩ := link_eq_ok.mp hr
    exact ⟨labelFault?_of_placements hplaced,
      jumpFault?_of_findTargets (places_of_placements hplaced) hp.labelsNamed htargets⟩
  · intro error herror
    rcases link_eq_error herror with hplaced | ⟨placed, hplaced, htargets⟩ | ⟨-, rfl⟩
    · exact Or.inl (isFirst_of_placements_eq_error hplaced)
    · exact Or.inr ⟨labelFault?_of_placements hplaced,
        isFirst_of_findTargets_eq_error (places_of_placements hplaced) hp.labelsNamed htargets⟩
    · exact absurd herror hp.wellFormed.toWalkable.link_ne_danglingOperand

/-- A procedure that is built fails to link with the fault of the first label that is faulty, even
behind faulty jumps, and with that of the first faulty jump where all labels are right. -/
theorem link_eq_error_iff (hp : p.Built) (error : LinkError) :
    p.link = .error error ↔ IsFirst p.labelFault? error ∨
      (∀ i, p.labelFault? i = none) ∧ IsFirst p.jumpFault? error := by
  obtain ⟨hok, herror⟩ := hp.link_faults
  refine ⟨herror error, fun h => ?_⟩
  rcases hlink : p.link with error' | r
  · congr 1
    have hreported := herror error' hlink
    rcases h with hlabel | ⟨hnone, hjump⟩
    · rcases hreported with hlabel' | ⟨hnone, -⟩
      · exact hlabel'.unique hlabel
      · exact absurd hnone hlabel.not_forall_none
    · rcases hreported with hlabel' | ⟨-, hjump'⟩
      · exact absurd hnone hlabel'.not_forall_none
      · exact hjump'.unique hjump
  · obtain ⟨hlabels, hjumps⟩ := hok r hlink
    rcases h with hlabel | ⟨-, hjump⟩
    · exact absurd hlabels hlabel.not_forall_none
    · exact absurd hjumps hjump.not_forall_none

/-- A jump to a name that no label has stands first, then a label that is placed twice, with a jump
to a label that is placed nowhere in between. -/
def placedAgain : Procedure where
  id := 0
  labels := #[".top.0", ".end.1"]
  body := #[.jump (.name "nowhere") .always none, .label 0, .jump (.label 1) .ifZero none, .label 0]

theorem placedAgain_built : placedAgain.Built :=
  ⟨0, none, (((((Relation.ReflTransGen.refl.tail (.newLabel "top")).tail (.newLabel "end")).tail
    (.emit (.jump (.name "nowhere") .always none) (by decide))).tail
      (.emit (.label 0) (by decide))).tail (.emit (.jump (.label 1) .ifZero none) (by decide))).tail
        (.emit (.label 0) (by decide))⟩

/-- The label placed again is reported, though both jumps are faulty and stand before it. -/
theorem link_eq_error_placedAgain :
    placedAgain.jumpFault? 0 = some (.undefinedLabel "nowhere" 0) ∧
      placedAgain.jumpFault? 2 = some (.undefinedLabel ".end.1" 2) ∧
        placedAgain.link = .error (.duplicateLabel ".top.0" 3) := by
  refine ⟨by decide, by decide, (link_eq_error_iff placedAgain_built _).mpr (Or.inl ⟨3, ?_, ?_⟩)⟩
  · decide
  · decide

end StackIR.Procedure
