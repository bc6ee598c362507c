import StackIR.Proofs.Balance
import StackIR.Proofs.Faults

/-!
# What the entry point gives up

The entry point of the program never returns, so its cells are never given up with its frame:
releasing all cells of it at once does nothing. Releasing one cell takes no notice of that. In the
entry point as everywhere, a statement that clears a cell through which the frame holds a reference
releases the slot, and nothing else does (`Script.slotReleases_root`). The cells of the entry point
are kept exactly by the scripts that clear none of them by name.
-/

namespace StackIR

/-- A node gives up the reference that the frame holds through a cell, straight from its slot. -/
def Arena.ReleasesSlot (a : Arena) (k : ExprId) (c : Cell) : Prop :=
  ∃ slot, a.get? k = some (.release slot) ∧ a.get? slot = some (.cell c)

namespace Script

open Arena

variable {s : Script} {p : Procedure}

/-- The statement at a position clears a cell by its name, and the frame holds a reference through
the cell. -/
def Clears (s : Script) (i : Nat) (c : Cell) : Prop :=
  ∃ name, s.body[i]? = some (.clear name) ∧ s.cellNamed name = some c ∧ c.isManaged = true

theorem mem_exits_root (hroot : s.header.isRoot = true) {st : Stmt} {c : Cell} :
    c ∈ s.exits st ↔ ∃ name, st = .clear name ∧ s.cellNamed name = some c ∧ c.isManaged = true := by
  cases st with
  | clear name => simp [exits]
  | clearAll => simp [mem_exits_clearAll, hroot]
  | _ => simp [exits]

theorem isDue_exit_root (hroot : s.header.isRoot = true) {i : Nat} {c : Cell} :
    s.IsDue (.exit i c) ↔ s.Clears i c := by
  constructor
  · rintro ⟨st, hst, hc⟩
    obtain ⟨name, rfl, hnamed, hmanaged⟩ := (mem_exits_root hroot).mp hc
    exact ⟨name, hst, hnamed, hmanaged⟩
  · rintro ⟨name, hst, hnamed, hmanaged⟩
    exact ⟨_, hst, (mem_exits_root hroot).mpr ⟨name, rfl, hnamed, hmanaged⟩⟩

section Accounts

variable {nodes : Path → PartNodes} {exit : Nat → Cell → ExprId}

theorem ScriptAccounts.releasesSlot (h : ScriptAccounts s p nodes exit) {i : Nat} {c : Cell}
    (hdue : s.IsDue (.exit i c)) : p.arena.ReleasesSlot (exit i c) c := by
  obtain ⟨-, -, slot, -, hnode, hslot⟩ := h.exit_node hdue
  exact ⟨slot, hnode, hslot⟩

/-- A slot is released only where its cell is given up, as a borrowed argument is never handed on
as a slot. -/
theorem ScriptAccounts.exists_exit (h : ScriptAccounts s p nodes exit) {k : ExprId} {c : Cell}
    (hk : p.arena.ReleasesSlot k c) : ∃ i, s.IsDue (.exit i c) ∧ exit i c = k := by
  obtain ⟨slot, hnode, hslot⟩ := hk
  obtain ⟨due, hdue, rfl⟩ := h.exists_due hnode
  cases due with
  | argument π i => exact absurd (h.borrows_of_release hdue hnode) (not_borrows_cell hslot)
  | exit i d =>
      have hd := (h.slot_of_release hdue hnode).2
      obtain rfl : d = c := by simpa using hd.symm.trans hslot
      exact ⟨i, hdue, rfl⟩

theorem ScriptAccounts.exit_injOn (h : ScriptAccounts s p nodes exit) :
    Set.InjOn (fun x : Nat × Cell => exit x.1 x.2) {x | s.IsDue (.exit x.1 x.2)} := by
  rintro ⟨i, c⟩ hc ⟨j, d⟩ hd heq
  dsimp only at hc hd heq
  obtain rfl := h.exit_stmt_unique hc hd heq
  obtain ⟨slot, hnode, hslot⟩ := h.releasesSlot hc
  obtain ⟨slot', hnode', hslot'⟩ := h.releasesSlot hd
  rw [← heq, hnode] at hnode'
  obtain rfl : slot = slot' := by simpa using hnode'
  obtain rfl : c = d := by simpa using hslot.symm.trans hslot'
  rfl

end Accounts

/-- The entry point releases a slot for each statement that clears a managed cell by name, and no
other slot: not for a call that borrows, and not where all cells are released. So it keeps its cells
exactly if the script clears none of them. -/
theorem slotReleases_root (hroot : s.header.isRoot = true) (h : s.lower = .ok p) :
    (∃ release : Nat × Cell → ExprId,
      Set.BijOn release {x | s.Clears x.1 x.2} {k | ∃ c, p.arena.ReleasesSlot k c} ∧
        ∀ i c, s.Clears i c → p.arena.ReleasesSlot (release (i, c)) c) ∧
      ((∀ k c, ¬p.arena.ReleasesSlot k c) ↔ ∀ i c, ¬s.Clears i c) := by
  obtain ⟨nodes, exit, haccounts⟩ := exists_scriptAccounts h
  have hreleases : ∀ i c, s.Clears i c → p.arena.ReleasesSlot (exit i c) c := fun i c hc =>
    haccounts.releasesSlot ((isDue_exit_root hroot).mpr hc)
  have hcleared : ∀ k c, p.arena.ReleasesSlot k c → ∃ i, s.Clears i c ∧ exit i c = k := by
    intro k c hk
    obtain ⟨i, hdue, rfl⟩ := haccounts.exists_exit hk
    exact ⟨i, (isDue_exit_root hroot).mp hdue, rfl⟩
  refine ⟨⟨fun x => exit x.1 x.2, ⟨?_, ?_, ?_⟩, hreleases⟩, ?_⟩
  · exact fun x hx => ⟨x.2, hreleases x.1 x.2 hx⟩
  · exact haccounts.exit_injOn.mono fun x hx => (isDue_exit_root hroot).mpr hx
  · rintro k ⟨c, hk⟩
    obtain ⟨i, hi, rfl⟩ := hcleared k c hk
    exact ⟨(i, c), hi, rfl⟩
  · constructor
    · exact fun hnone i c hc => hnone _ c (hreleases i c hc)
    · intro hnone k c hk
      obtain ⟨i, hi, -⟩ := hcleared k c hk
      exact hnone i c hi

/-- The entry point of a program borrows a counted local for a call, and releases all cells. -/
def borrowsAtRoot : Script where
  header := { isRoot := true }
  cells := [⟨"s", .localVar, none, true, false, false⟩]
  body := [.expr (.call "f" 1 false [.load "s"]), .clearAll]

/-- It keeps its local. -/
theorem slotReleases_borrowsAtRoot : borrowsAtRoot.header.isRoot = true ∧
    ∃ p, borrowsAtRoot.lower = .ok p ∧ ∀ k c, ¬p.arena.ReleasesSlot k c := by
  have hroot : borrowsAtRoot.header.isRoot = true := rfl
  obtain ⟨p, hp⟩ : ∃ p, borrowsAtRoot.lower = .ok p :=
    (stopsAt_faults (by decide)).exists_ok_iff.mpr (by decide)
  refine ⟨hroot, p, hp, (slotReleases_root hroot hp).2.mpr ?_⟩
  rintro i c ⟨name, hst, -⟩
  rcases i with _ | _ | i <;> cases hst

/-- The entry point of a program clears a counted local by name. -/
def clearsAtRoot : Script where
  header := { isRoot := true }
  cells := [⟨"s", .localVar, none, true, false, false⟩]
  body := [.clear "s"]

/-- It is lowered to the release of the local's slot. -/
theorem releasesSlot_clearsAtRoot : clearsAtRoot.header.isRoot = true ∧
    ¬∀ p, clearsAtRoot.lower = .ok p → ∀ k c, ¬p.arena.ReleasesSlot k c := by
  refine ⟨rfl, fun hkept => ?_⟩
  obtain ⟨p, hp⟩ : ∃ p, clearsAtRoot.lower = .ok p :=
    (stopsAt_faults (by decide)).exists_ok_iff.mpr (by decide)
  obtain ⟨nodes, exit, haccounts⟩ := exists_scriptAccounts hp
  have hdue : clearsAtRoot.IsDue (.exit 0 (countedLocal "s")) := ⟨.clear "s", rfl, by decide⟩
  exact hkept p hp _ _ (haccounts.releasesSlot hdue)

end Script

end StackIR
