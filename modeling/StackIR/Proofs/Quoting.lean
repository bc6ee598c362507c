import StackIR.Proofs.Words
import StackIR.Text.Quoted

/-!
# Reading quoted text

Quoted text stays on one line (`Text.lineFeed_not_mem_quote`), and it can be told from what follows
it: the written form of a character is no beginning of that of another, and none begins with the
closing quote (`Text.quoteChars_append_inj`). The digits of a code point end before their brace, and
different code points have different digits (`toDigits_sixteen_injective`).
-/

namespace StackIR

/-! ## Digits in base 16 -/

/-- What holds of the sixteen digits holds of every digit of a number. -/
theorem of_mem_toDigits_sixteen {P : Char → Prop} (hP : ∀ d < 16, P (Nat.digitChar d)) {n : Nat}
    {c : Char} (h : c ∈ Nat.toDigits 16 n) : P c := by
  induction n using Nat.strongRecOn with
  | _ n ih =>
      rcases Nat.lt_or_ge n 16 with hn | hn
      · rw [Nat.toDigits_of_lt_base hn, List.mem_singleton] at h
        rw [h]
        exact hP n hn
      · rw [Nat.toDigits_of_base_le (by decide) hn, List.mem_append, List.mem_singleton] at h
        rcases h with h | h
        · exact ih (n / 16) (by omega) h
        · rw [h]
          exact hP (n % 16) (by omega)

theorem digitChar_injOn : ∀ d < 16, ∀ d' < 16, Nat.digitChar d = Nat.digitChar d' → d = d' := by
  decide

theorem toDigits_sixteen_injective {n m : Nat} (h : Nat.toDigits 16 n = Nat.toDigits 16 m) :
    n = m := by
  induction n using Nat.strongRecOn generalizing m with
  | _ n ih =>
      have hconcat : ∀ {xs : List Char} {c d : Char}, xs ≠ [] → [c] ≠ xs ++ [d] := by
        intro xs c d hxs heq
        have hlen := congrArg List.length heq
        rw [List.length_append, List.length_singleton, List.length_singleton] at hlen
        exact hxs (List.length_eq_zero_iff.mp (by omega))
      rcases Nat.lt_or_ge n 16 with hn | hn <;> rcases Nat.lt_or_ge m 16 with hm | hm
      · rw [Nat.toDigits_of_lt_base hn, Nat.toDigits_of_lt_base hm] at h
        exact digitChar_injOn n hn m hm (List.singleton_inj.mp h)
      · rw [Nat.toDigits_of_lt_base hn, Nat.toDigits_of_base_le (by decide) hm] at h
        exact absurd h (hconcat Nat.toDigits_ne_nil)
      · rw [Nat.toDigits_of_base_le (by decide) hn, Nat.toDigits_of_lt_base hm] at h
        exact absurd h.symm (hconcat Nat.toDigits_ne_nil)
      · rw [Nat.toDigits_of_base_le (by decide) hn, Nat.toDigits_of_base_le (by decide) hm] at h
        obtain ⟨hdiv, hlast⟩ := List.append_inj' h rfl
        have hsixteenth := ih (n / 16) (by omega) hdiv
        have hdigit := digitChar_injOn (n % 16) (by omega) (m % 16) (by omega)
          (List.singleton_inj.mp hlast)
        omega

/-! ## Quoted text -/

namespace Text

/-- The characters that are written with a letter behind a backslash. -/
def letters : List (Char × Char) :=
  [('"', '"'), ('\\', '\\'), ('\n', 'n'), ('\r', 'r'), ('\t', 't'), ('\x00', '0')]

/-- The three ways to write a character. -/
inductive Escaped (c : Char) : List Char → Prop where
  | letter {k : Char} : (c, k) ∈ letters → Escaped c ['\\', k]
  | code : Escaped c ('\\' :: 'u' :: '\x7b' :: (Nat.toDigits 16 c.toNat ++ ['\x7d']))
  | plain : c ≠ '"' → c ≠ '\\' → c ≠ '\n' → Escaped c [c]

theorem escaped_escapeChar (c : Char) : Escaped c (escapeChar c) := by
  unfold escapeChar
  split
  case h_7 _ hquote hbackslash hfeed _ _ _ =>
    split
    · exact .code
    · exact .plain hquote hbackslash hfeed
  all_goals exact .letter (by decide)

namespace Escaped

variable {c d : Char} {xs ys r s : List Char}

/-- The digits of a code point end before the brace. -/
theorem code_append_inj
    (h : Nat.toDigits 16 c.toNat ++ '\x7d' :: r = Nat.toDigits 16 d.toNat ++ '\x7d' :: s) :
    c = d ∧ r = s := by
  have hbrace : ∀ n, ∀ x ∈ Nat.toDigits 16 n, (x == '\x7d') = false := fun _ _ hx =>
    of_mem_toDigits_sixteen (P := fun x => (x == '\x7d') = false) (by decide) hx
  obtain ⟨hcode, hrest⟩ := append_inj_of_ends (hbrace _) (hbrace _) (ends_cons (by decide) _)
    (ends_cons (by decide) _) h
  exact ⟨Char.toNat_inj.mp (toDigits_sixteen_injective hcode), (List.cons.inj hrest).2⟩

/-- No written form is the beginning of another. -/
theorem append_inj (hc : Escaped c xs) (hd : Escaped d ys) (h : xs ++ r = ys ++ s) :
    c = d ∧ r = s := by
  have hletters : ∀ x ∈ letters, (∀ y ∈ letters, x.2 = y.2 → x.1 = y.1) ∧ x.2 ≠ 'u' := by decide
  cases hc with
  | letter hk =>
      cases hd with
      | letter hk' =>
          simp only [List.cons_append, List.nil_append, List.cons.injEq, true_and] at h
          obtain ⟨rfl, rfl⟩ := h
          exact ⟨(hletters _ hk).1 _ hk' rfl, rfl⟩
      | code =>
          simp only [List.cons_append, List.cons.injEq, true_and] at h
          exact absurd h.1 (hletters _ hk).2
      | plain _ hbackslash => exact absurd (List.cons.inj h).1.symm hbackslash
  | code =>
      cases hd with
      | letter hk' =>
          simp only [List.cons_append, List.cons.injEq, true_and] at h
          exact absurd h.1.symm (hletters _ hk').2
      | code =>
          simp only [List.cons_append, List.append_assoc, List.nil_append, List.cons.injEq,
            true_and] at h
          exact code_append_inj h
      | plain _ hbackslash => exact absurd (List.cons.inj h).1.symm hbackslash
  | plain _ hbackslash =>
      cases hd with
      | letter | code => exact absurd (List.cons.inj h).1 hbackslash
      | plain => exact List.cons.inj h

/-- No written form begins with a quote. -/
theorem append_ne_quote (hc : Escaped c xs) : xs ++ r ≠ '"' :: s := by
  intro h
  cases hc with
  | letter => exact absurd (List.cons.inj h).1 (by decide)
  | code => exact absurd (List.cons.inj h).1 (by decide)
  | plain hquote => exact hquote (List.cons.inj h).1

theorem lineFeed_not_mem (hc : Escaped c xs) : '\n' ∉ xs := by
  cases hc with
  | letter hk =>
      have hne : ∀ x ∈ letters, x.2 ≠ '\n' := by decide
      simpa using (hne _ hk).symm
  | code =>
      have hdigits : '\n' ∉ Nat.toDigits 16 c.toNat := fun h =>
        of_mem_toDigits_sixteen (P := (· ≠ '\n')) (by decide) h rfl
      simpa using hdigits
  | plain _ _ hfeed => simpa using hfeed.symm

end Escaped

/-- Escaped text ends before the quote. -/
theorem flatMap_escapeChar_append_inj {cs ds r s : List Char}
    (h : cs.flatMap escapeChar ++ '"' :: r = ds.flatMap escapeChar ++ '"' :: s) :
    cs = ds ∧ r = s := by
  induction cs generalizing ds with
  | nil =>
      cases ds with
      | nil => exact ⟨rfl, (List.cons.inj h).2⟩
      | cons d ds =>
          rw [List.flatMap_cons, List.append_assoc] at h
          exact absurd h.symm (escaped_escapeChar d).append_ne_quote
  | cons c cs ih =>
      rw [List.flatMap_cons, List.append_assoc] at h
      cases ds with
      | nil => exact absurd h (escaped_escapeChar c).append_ne_quote
      | cons d ds =>
          rw [List.flatMap_cons, List.append_assoc] at h
          obtain ⟨rfl, htail⟩ := (escaped_escapeChar c).append_inj (escaped_escapeChar d) h
          obtain ⟨rfl, hrest⟩ := ih htail
          exact ⟨rfl, hrest⟩

/-- Quoted text can be told from what follows it. -/
theorem quoteChars_append_inj {cs ds r s : List Char}
    (h : quoteChars cs ++ r = quoteChars ds ++ s) : cs = ds ∧ r = s :=
  flatMap_escapeChar_append_inj (by simpa [quoteChars] using h)

/-- Quoted text stays on its line. -/
theorem lineFeed_not_mem_quote (s : String) : '\n' ∉ (quote s).toList := by
  have hbody : '\n' ∉ s.toList.flatMap escapeChar := by
    intro h
    obtain ⟨c, -, hc⟩ := List.mem_flatMap.mp h
    exact (escaped_escapeChar c).lineFeed_not_mem hc
  simpa [quote, quoteChars] using hbody

end Text

end StackIR
