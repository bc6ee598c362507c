import Mathlib.Data.List.Basic
import Std.Data.String.ToInt
import StackIR.Expr.Basic

/-!
# Words

A word ends before certain characters, so it can be told from what follows it
(`append_inj_of_ends`). Numbers and literals are words that end before a blank or a parenthesis, and
different ones are written differently (`repr_append_inj`, `Literal.append_inj`).
-/

namespace StackIR

/-! ## Reading a word -/

/-- A text is empty or begins with a character of the given kind. -/
def Ends (stop : Char → Bool) (r : List Char) : Prop :=
  ∀ c ∈ r.head?, stop c = true

theorem ends_nil (stop : Char → Bool) : Ends stop [] := by
  simp [Ends]

theorem ends_cons {stop : Char → Bool} {c : Char} (h : stop c = true) (r : List Char) :
    Ends stop (c :: r) := by
  simpa [Ends] using h

/-- Words without a character that ends them are the same if they begin the same text. -/
theorem append_inj_of_ends {stop : Char → Bool} {xs ys r s : List Char}
    (hxs : ∀ c ∈ xs, stop c = false) (hys : ∀ c ∈ ys, stop c = false) (hr : Ends stop r)
    (hs : Ends stop s) (h : xs ++ r = ys ++ s) : xs = ys ∧ r = s := by
  induction xs generalizing ys with
  | nil =>
      cases ys with
      | nil => exact ⟨rfl, h⟩
      | cons y ys =>
          obtain rfl : r = y :: (ys ++ s) := h
          have hstop := hr y rfl
          rw [hys y List.mem_cons_self] at hstop
          cases hstop
  | cons x xs ih =>
      cases ys with
      | nil =>
          obtain rfl : x :: (xs ++ r) = s := h
          have hstop := hs x rfl
          rw [hxs x List.mem_cons_self] at hstop
          cases hstop
      | cons y ys =>
          obtain ⟨rfl, htail⟩ := List.cons.inj h
          obtain ⟨rfl, rfl⟩ := ih (fun c hc => hxs c (List.mem_cons_of_mem _ hc))
            (fun c hc => hys c (List.mem_cons_of_mem _ hc)) htail
          exact ⟨rfl, rfl⟩

/-- A character that ends a name, an id or a literal. -/
def endsWord (c : Char) : Bool :=
  c = ' ' || c = ')'

/-- A name, an id or a literal: it has no character that ends it. -/
def IsWord (s : String) : Prop :=
  ∀ c ∈ s.toList, endsWord c = false

section Words

variable {r s : List Char}

theorem IsWord.append_inj {x y : String} (hx : IsWord x) (hy : IsWord y) (hr : Ends endsWord r)
    (hs : Ends endsWord s) (h : x.toList ++ r = y.toList ++ s) : x = y ∧ r = s := by
  obtain ⟨heq, hrest⟩ := append_inj_of_ends hx hy hr hs h
  exact ⟨String.toList_inj.mp heq, hrest⟩

/-! ## Numbers and literals -/

theorem isDigit_of_mem_repr {n : Nat} {c : Char} (h : c ∈ n.repr.toList) : c.isDigit = true := by
  rw [Nat.toList_repr] at h
  exact Nat.isDigit_of_mem_toDigits (by decide) (by decide) h

theorem endsWord_of_isDigit {c : Char} (h : c.isDigit = true) : endsWord c = false := by
  have hblank : c ≠ ' ' := fun hc => absurd (hc ▸ h) (by decide)
  have hparen : c ≠ ')' := fun hc => absurd (hc ▸ h) (by decide)
  simp [endsWord, hblank, hparen]

theorem isWord_repr (n : Nat) : IsWord n.repr := fun _ hc =>
  endsWord_of_isDigit (isDigit_of_mem_repr hc)

theorem repr_append_inj {n m : Nat} (hr : Ends endsWord r) (hs : Ends endsWord s)
    (h : n.repr.toList ++ r = m.repr.toList ++ s) : n = m ∧ r = s := by
  obtain ⟨heq, hrest⟩ := (isWord_repr n).append_inj (isWord_repr m) hr hs h
  exact ⟨Nat.repr_inj.mp heq, hrest⟩

end Words

/-- The written form of an integer begins with a digit or a sign. -/
theorem exists_int_repr_eq (z : Int) : ∃ c cs, z.repr.toList = c :: cs ∧
    (c.isDigit = true ∨ c = '-') ∧ ∀ d ∈ cs, d.isDigit = true := by
  have hnat : ∀ n : Nat, ∃ c cs, n.repr.toList = c :: cs ∧ c.isDigit = true ∧
      ∀ d ∈ cs, d.isDigit = true := by
    intro n
    have hdigits : ∀ d ∈ n.repr.toList, d.isDigit = true := fun _ => isDigit_of_mem_repr
    cases hn : n.repr.toList with
    | nil =>
        rw [Nat.toList_repr] at hn
        exact absurd hn Nat.toDigits_ne_nil
    | cons c cs =>
        rw [hn] at hdigits
        exact ⟨c, cs, rfl, hdigits c List.mem_cons_self,
          fun d hd => hdigits d (List.mem_cons_of_mem c hd)⟩
  cases z with
  | ofNat n =>
      obtain ⟨c, cs, hn, hc, hcs⟩ := hnat n
      exact ⟨c, cs, hn, Or.inl hc, hcs⟩
  | negSucc n =>
      have hsign : (Int.negSucc n).repr = "-" ++ (n + 1).repr := rfl
      refine ⟨'-', (n + 1).repr.toList, ?_, Or.inr rfl, fun _ => isDigit_of_mem_repr⟩
      rw [hsign, String.toList_append]
      rfl

namespace Literal

theorem isWord_text (v : Literal) : IsWord v.text := by
  rcases v with value | _ | _
  · obtain ⟨c, cs, htext, hc, hcs⟩ := exists_int_repr_eq value.toInt
    unfold IsWord
    rw [text, htext]
    intro d hd
    rcases List.mem_cons.mp hd with rfl | hd
    · rcases hc with hc | rfl
      · exact endsWord_of_isDigit hc
      · rfl
    · exact endsWord_of_isDigit (hcs d hd)
  · simp [IsWord, text, endsWord]
  · simp [IsWord, text, endsWord]

theorem exists_text_eq (v : Literal) : ∃ c cs, v.text.toList = c :: cs ∧
    (c.isDigit = true ∨ c = '-' ∨ c = 't' ∨ c = 'f') := by
  rcases v with value | _ | _
  · obtain ⟨c, cs, htext, hc, -⟩ := exists_int_repr_eq value.toInt
    exact ⟨c, cs, htext, hc.imp_right Or.inl⟩
  · exact ⟨'f', ['a', 'l', 's', 'e'], rfl, by simp⟩
  · exact ⟨'t', ['r', 'u', 'e'], rfl, by simp⟩

theorem text_injective {v w : Literal} (h : v.text = w.text) : v = w := by
  have hbool : ∀ (value : Int32) (b : Bool), (int value).text ≠ (bool b).text := by
    intro value b heq
    obtain ⟨c, cs, htext, hc, -⟩ := exists_int_repr_eq value.toInt
    have hlist : c :: cs = (bool b).text.toList := by
      rw [← htext, ← heq]
      rfl
    cases b <;> obtain ⟨rfl, -⟩ := List.cons.inj hlist <;> revert hc <;> decide
  cases v with
  | int value =>
      cases w with
      | int value' => rw [Int32.toInt_inj.mp (Int.repr_inj.mp h)]
      | bool b => exact absurd h (hbool value b)
  | bool b =>
      cases w with
      | int value => exact absurd h.symm (hbool value b)
      | bool b' =>
          revert h
          cases b <;> cases b' <;> decide

theorem append_inj {v w : Literal} {r s : List Char} (hr : Ends endsWord r) (hs : Ends endsWord s)
    (h : v.text.toList ++ r = w.text.toList ++ s) : v = w ∧ r = s := by
  obtain ⟨heq, hrest⟩ := v.isWord_text.append_inj w.isWord_text hr hs h
  exact ⟨text_injective heq, hrest⟩

end Literal

end StackIR
