import Std.Data.HashMap
import StackIR.Expr.Basic

/-!
# Uses of shared expressions

While code is generated, the first use of a shared expression computes it, later uses read the
value again, and the last one may drop it. The tracker counts the uses so far against the total.
-/

namespace StackIR

/-- How often each shared expression has been used, out of how many uses. An expression without an
entry has none. -/
structure UseTracker where
  totals : Std.HashMap ExprId Nat := ∅
  used : Std.HashMap ExprId Nat := ∅

namespace UseTracker

def total (u : UseTracker) (e : ExprId) : Nat :=
  u.totals.getD e 0

def current (u : UseTracker) (e : ExprId) : Nat :=
  u.used.getD e 0

def record (u : UseTracker) (e : ExprId) : UseTracker :=
  { u with used := u.used.insert e (u.used.getD e 0 + 1) }

/-- Whether the last recorded use of an expression is the last there is. -/
def isLastUse (u : UseTracker) (e : ExprId) : Bool :=
  u.total e ≠ 0 && u.current e = u.total e

@[simp] theorem current_record_self (u : UseTracker) (e : ExprId) :
    (u.record e).current e = u.current e + 1 := by
  simp [record, current]

theorem current_record_of_ne (u : UseTracker) {e x : ExprId} (h : e ≠ x) :
    (u.record e).current x = u.current x := by
  simp [record, current, Std.HashMap.getD_insert, h]

@[simp] theorem total_record (u : UseTracker) (e x : ExprId) :
    (u.record e).total x = u.total x := rfl

theorem current_foldl_record (xs : List ExprId) (e : ExprId) : ∀ u : UseTracker,
    (xs.foldl record u).current e = u.current e + xs.count e := by
  induction xs with
  | nil => exact fun _ => rfl
  | cons x xs ih =>
      intro u
      rw [List.foldl_cons, ih]
      by_cases h : x = e
      · subst h
        rw [current_record_self, List.count_cons_self]
        omega
      · rw [current_record_of_ne u h, List.count_cons_of_ne (by simpa using h)]

end UseTracker

end StackIR
