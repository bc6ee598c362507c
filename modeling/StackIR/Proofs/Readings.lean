import Mathlib.Data.List.Basic
import StackIR.Script.Decode

/-!
# What is read of a record

The value that a reading yields, without its complaint (`Checked.value?`), depends only on what is
given for the fields it reads (`Record.given`), never on the places where they stand.
-/

namespace StackIR.Script

open Toml

/-! ## One item among others -/

section Lists

variable {α : Type}

theorem eq_nil_or_two_le (before after : List α) :
    before = [] ∧ after = [] ∨ ∀ a, 2 ≤ (before ++ a :: after).length := by
  rcases before with _ | ⟨b, before⟩
  · rcases after with _ | ⟨c, after⟩
    · exact .inl ⟨rfl, rfl⟩
    · exact .inr fun a => by simp
  · exact .inr fun a => by simp; omega

theorem getElem?_append_cons (before after : List α) (a : α) :
    (before ++ a :: after)[before.length]? = some a := by
  simp

theorem getElem?_append_cons_of_ne {before after : List α} {a b : α} {i : Nat}
    (h : i ≠ before.length) : (before ++ a :: after)[i]? = (before ++ b :: after)[i]? := by
  rw [List.getElem?_append, List.getElem?_append]
  split
  · rfl
  · obtain ⟨j, hj⟩ := Nat.exists_eq_succ_of_ne_zero (n := i - before.length) (by omega)
    rw [hj]
    rfl

end Lists

/-! ## Looking up keys -/

section Lookup

variable {α : Type} {entries before after : List (String × α)} {key name : String} {a : α}

theorem lookup_of_append_cons (hkey : key ∉ before.map (·.1)) :
    (before ++ (key, a) :: after).lookup key = some a := by
  refine List.lookup_eq_some_iff.mpr ⟨before, after, rfl, fun e he => bne_iff_ne.mpr fun h => ?_⟩
  exact hkey (List.mem_map.mpr ⟨e, he, h.symm⟩)

theorem lookup_of_ne (h : name ≠ key) :
    (before ++ (key, a) :: after).lookup name = (before ++ after).lookup name := by
  rw [List.lookup_append, List.lookup_append, List.lookup_cons, beq_false_of_ne h]

theorem mem_of_lookup (h : entries.lookup key = some a) : (key, a) ∈ entries := by
  obtain ⟨before, after, rfl, -⟩ := List.lookup_eq_some_iff.mp h
  exact List.mem_append_right before List.mem_cons_self

theorem lookup_of_mem (hkeys : (entries.map (·.1)).Nodup) (h : (key, a) ∈ entries) :
    entries.lookup key = some a := by
  obtain ⟨before, after, rfl⟩ := List.append_of_mem h
  rw [List.map_append, List.map_cons] at hkeys
  exact lookup_of_append_cons fun hbefore =>
    (List.nodup_append.mp hkeys).2.2 key hbefore key List.mem_cons_self rfl

theorem lookup_of_perm {entries' : List (String × α)} (hkeys : (entries.map (·.1)).Nodup)
    (hperm : entries.Perm entries') (key : String) : entries.lookup key = entries'.lookup key := by
  have hkeys' := ((hperm.map (·.1)).nodup_iff).mp hkeys
  refine Option.ext fun a => ⟨fun h => ?_, fun h => ?_⟩
  · exact lookup_of_mem hkeys' (hperm.mem_iff.mp (mem_of_lookup h))
  · exact lookup_of_mem hkeys (hperm.mem_iff.mpr (mem_of_lookup h))

theorem lookup_filter_ne (h : name ≠ key) :
    (entries.filter (·.1 ≠ key)).lookup name = entries.lookup name := by
  induction entries with
  | nil => rfl
  | cons e entries ih =>
      obtain ⟨k, a⟩ := e
      by_cases hk : k = key
      · subst hk
        rw [List.filter_cons_of_neg (by simp), ih, List.lookup_cons, beq_false_of_ne h]
      · rw [List.filter_cons_of_pos (by simpa using hk), List.lookup_cons, List.lookup_cons, ih]

theorem lookup_map_snd {β : Type} (f : α → β) :
    (entries.map fun e => (e.1, f e.2)).lookup key = (entries.lookup key).map f := by
  induction entries with
  | nil => rfl
  | cons e entries ih =>
      rw [List.map_cons, List.lookup_cons, List.lookup_cons, ih]
      cases key == e.1 <;> rfl

/-- The values of an array under names of their own, looked up by the place of the name. -/
theorem lookup_zip {names : List String} {values : List α} {i : Nat} (hnames : names.Nodup)
    (hname : names[i]? = some name) : (names.zip values).lookup name = values[i]? := by
  induction names generalizing values i with
  | nil => cases hname
  | cons first names ih =>
      rw [List.nodup_cons] at hnames
      cases values with
      | nil => rfl
      | cons a values =>
          cases i with
          | zero =>
              obtain rfl := Option.some.inj hname
              rw [List.zip_cons_cons, List.lookup_cons_self]
              rfl
          | succ i =>
              have hne : name ≠ first := fun h =>
                hnames.1 (h ▸ List.mem_of_getElem? hname)
              rw [List.zip_cons_cons, List.lookup_cons, beq_false_of_ne hne]
              exact ih hnames.2 hname

end Lookup

/-! ## Values without errors -/

section Except

variable {ε α β : Type}

@[simp] theorem toOption_ok (a : α) : (.ok a : Except ε α).toOption = some a := rfl

@[simp] theorem toOption_error (e : ε) : (.error e : Except ε α).toOption = none := rfl

theorem toOption_eq_some {x : Except ε α} {a : α} : x.toOption = some a ↔ x = .ok a := by
  cases x <;> simp

@[simp] theorem toOption_map (f : α → β) (x : Except ε α) :
    (f <$> x).toOption = x.toOption.map f := by
  cases x <;> rfl

@[simp] theorem toOption_bind (x : Except ε α) (f : α → Except ε β) :
    (x >>= f).toOption = x.toOption.bind fun a => (f a).toOption := by
  cases x <;> rfl

theorem toOption_mapM (f : α → Except ε β) (xs : List α) :
    (xs.mapM f).toOption = xs.mapM fun x => (f x).toOption := by
  induction xs with
  | nil => rfl
  | cons x xs ih =>
      simp only [List.mapM_cons, toOption_bind, ih]
      rfl

end Except

theorem toOption_decodeList {α : Type} (d : Value → Decoded α) (isHeaded : Bool)
    (items : List Value) :
    (decodeList (.array isHeaded items) fun x _ => d x).toOption =
      items.mapM fun x => (d x).toOption := by
  have hattach : items.attach.mapM (fun x => d x.1) = items.mapM d := by
    rw [List.mapM_subtype fun x _ => rfl, List.unattach_attach]
  rw [← toOption_mapM, ← hattach]
  rfl

theorem toOption_decodeVariant {α : Type} (variants : List (String × α)) (name : String) :
    (decodeVariant variants name).toOption = variants.lookup name := by
  unfold decodeVariant
  cases variants.lookup name <;> rfl

/-- A variant with contents that are only checked. -/
theorem toOption_checkedVariant {α : Type} (variants : List (String × α))
    (check : Value → Decoded Unit) (name : String) (v : Value) :
    (decodeVariant variants name >>= fun a => check v >>= fun _ => pure a).toOption =
      (variants.lookup name).bind fun a => (check v).toOption.map fun _ => a := by
  rw [toOption_bind, toOption_decodeVariant]
  refine congrArg _ (funext fun a => ?_)
  rw [toOption_bind]
  exact Option.map_eq_bind.symm

/-! ## Values without complaints -/

namespace Checked

variable {α β : Type}

/-- What was read, if there was nothing to complain about. -/
def value? (c : Checked α) : Option α :=
  c.result.toOption

theorem value?_map (f : α → β) (x : Checked α) : (f <$> x).value? = x.value?.map f := by
  rcases x with d | a <;> rfl

theorem value?_seq (f : Checked (α → β)) (x : Checked α) :
    (f <*> x).value? = f.value?.bind fun g => x.value?.map g := by
  rcases f with c | g <;> rcases x with d | a <;> rfl

theorem value?_seqLeft (x : Checked α) (y : Checked β) :
    (x <* y).value? = x.value?.bind fun a => y.value?.map fun _ => a := by
  rcases x with c | a <;> rcases y with d | b <;> rfl

end Checked

/-! ## Fields -/

namespace Record

variable {α : Type} (r : Record) (name : String) (d : Value → Decoded α)

/-- What is given for a field and can be read. -/
def given : Option (Option α) :=
  (r.entries.lookup name).map fun v => (d v).toOption

theorem find?_value : (r.find? name).map (fun f => f.2.1) = r.entries.lookup name := by
  unfold find?
  split
  case h_1 h =>
    refine (List.lookup_eq_none_iff.mpr fun e he => ?_).symm
    have := List.findIdx?_eq_none_iff.mp h e he
    exact bne_iff_ne.mpr fun heq => (of_decide_eq_false this) heq.symm
  case h_2 i h =>
    obtain ⟨hi, hname, hfirst⟩ := List.findIdx?_eq_some_iff_getElem.mp h
    obtain rfl := of_decide_eq_true hname
    refine (List.lookup_eq_some_iff.mpr ⟨r.entries.take i, r.entries.drop (i + 1), ?_, ?_⟩).symm
    · rw [← List.drop_eq_getElem_cons hi, List.take_append_drop]
    · intro e he
      obtain ⟨j, hj, rfl⟩ := List.mem_take_iff_getElem.mp he
      exact bne_iff_ne.mpr fun heq => hfirst j (by omega) (decide_eq_true heq.symm)

theorem value?_field? :
    (r.field? name fun v _ => d v).value? =
      ((r.given name d).map (Option.map some)).getD (some none) := by
  rw [given, ← find?_value]
  unfold field?
  cases r.find? name with
  | none => rfl
  | some f =>
      obtain ⟨place, v, h⟩ := f
      cases hd : d v <;> simp [hd, Checked.value?, Checked.result]

theorem value?_required :
    (r.required name fun v _ => d v).value? = (r.given name d).getD none := by
  have hjoin : (r.required name fun v _ => d v).value? =
      (r.field? name fun v _ => d v).value?.join := by
    unfold required
    rcases r.field? name fun v _ => d v with c | _ | a <;> rfl
  rw [hjoin, value?_field?]
  rcases r.given name d with _ | _ | a <;> rfl

theorem value?_defaulted (default : α) :
    (r.defaulted name default fun v _ => d v).value? = (r.given name d).getD (some default) := by
  rw [defaulted, Checked.value?_map, value?_field?]
  rcases r.given name d with _ | _ | a <;> rfl

theorem value?_optional :
    (r.optional name fun v _ => d v).value? =
      if r.length?.isSome then ((r.given name d).getD none).map some
      else ((r.given name d).map (Option.map some)).getD (some none) := by
  unfold optional
  split
  · rw [Checked.value?_map, value?_required]
  · exact r.value?_field? name d

end Record

end StackIR.Script
