import Mathlib.Logic.Relation
import StackIR.Proofs.Parts

/-!
# Keys in any order

Reordering the entries of tables, anywhere in a document, and adding or removing keys that the part
they stand in does not know leaves the script that the document describes as it is, and no script
if there is none. An expression, by contrast, is told by its only key: one more, and the document
describes no script (`ofEntries_keys`).
-/

namespace StackIR.Script

open Toml Relation

namespace Part

/-! ## Changes of documents -/

/-- What the value of a key is read as. -/
def entry (p : Part) (entries : List (String × Value)) (key : String) : Part :=
  ((p.fields (entries.lookup kindField)).lookup key).getD .ignored

/-- What an element of an array is read as. A record gives its fields in declared order. -/
def item (p : Part) (items : List Value) (i : Nat) : Part :=
  match p with
  | .list each => each
  | p =>
    if p.isOpen then ((p.fields items.head?)[i]?.map (·.2)).getD .ignored else .ignored

end Part

/-- A change of a part, or of one somewhere in it. -/
inductive Inside (R : Part → Value → Value → Prop) : Part → Value → Value → Prop where
  | here {p : Part} {v w : Value} (h : R p v w) : Inside R p v w
  | entry {p : Part} (before after : List (String × Value)) {key : String} {v w : Value}
      (hkey : key ∉ before.map (·.1))
      (h : Inside R (p.entry (before ++ (key, v) :: after) key) v w) :
      Inside R p (.table (before ++ (key, v) :: after)) (.table (before ++ (key, w) :: after))
  | item {p : Part} {isHeaded : Bool} (before after : List Value) {v w : Value}
      (h : Inside R (p.item (before ++ v :: after) before.length) v w) :
      Inside R p (.array isHeaded (before ++ v :: after)) (.array isHeaded (before ++ w :: after))

/-- Reorders the entries of a table, or adds one whose key is ignored. -/
inductive Rearranges : Part → Value → Value → Prop where
  | reorder {p : Part} {entries entries' : List (String × Value)}
      (hkeys : (entries.map (·.1)).Nodup) (hperm : entries.Perm entries') :
      Rearranges p (.table entries) (.table entries')
  | foreign {p : Part} (before after : List (String × Value)) {key : String} {v : Value}
      (hopen : p.isOpen = true)
      (hkey : key ∉ (p.fields ((before ++ after).lookup kindField)).map (·.1)) :
      Rearranges p (.table (before ++ after)) (.table (before ++ (key, v) :: after))

/-- Adds keys to the only one of an expression. -/
inductive AddsKeys : Part → Value → Value → Prop where
  | expr (before after : List (String × Value)) {e : String × Value}
      (h : before ++ after ≠ []) :
      AddsKeys .expr (.table [e]) (.table (before ++ e :: after))

/-! ## Closed parts -/

namespace Part

variable {p : Part} {key : String} {v w : Value}

theorem read_table_of_two_le (hclosed : p.isOpen = false) (hp : p ≠ .ignored)
    {entries : List (String × Value)} (h : 2 ≤ entries.length) :
    p.read (.table entries) = none := by
  match entries, h with
  | e :: e' :: entries, _ =>
    cases p
    case expr =>
      show (decodeExpr _).toOption = none
      rw [decodeExpr]
      · rfl
      · intro _ _ h
        cases h
    case ignored => exact absurd rfl hp
    all_goals first | rfl | cases hclosed

/-- A part is told by the only key of a table, and read from what the key holds. -/
structure ByKey {α : Type} (p : Part) (variants : List (String × α)) (contents : α → Part)
    (build : (a : α) → (contents a).Result → p.Result) : Prop where
  fields : ∀ kind, p.fields kind = variants.map fun k => (k.1, contents k.2)
  read : ∀ key v, p.read (.table [(key, v)]) =
    (variants.lookup key).bind fun a => ((contents a).read v).map (build a)

theorem byKey_expr : Part.expr.ByKey exprKinds ExprKind.contents ExprKind.build where
  fields _ := rfl
  read key v := by
    show (decodeExpr _).toOption = _
    rw [decodeExpr_table, toOption_bind, toOption_decodeVariant]
    exact congrArg _ (funext fun k => toOption_map ..)

theorem byKey_jumpMode : Part.jumpMode.ByKey jumpModes (fun _ => .unit) fun mode _ => mode where
  fields _ := rfl
  read := toOption_checkedVariant jumpModes decodeUnit

theorem byKey_storage :
    Part.storage.ByKey storages (fun _ => .noContents) fun storage _ => storage where
  fields _ := rfl
  read := toOption_checkedVariant storages decodeNoContents

section ByKey

variable {α : Type} {variants : List (String × α)} {contents : α → Part}
  {build : (a : α) → (contents a).Result → p.Result} {a : α}

theorem ByKey.entry_eq (h : p.ByKey variants contents build) (hkey : variants.lookup key = some a)
    (entries : List (String × Value)) : p.entry entries key = contents a := by
  rw [entry, h.fields, lookup_map_snd, hkey]
  rfl

theorem ByKey.read_congr (h : p.ByKey variants contents build) {entries : List (String × Value)}
    (hread : (p.entry entries key).read v = (p.entry entries key).read w) :
    p.read (.table [(key, v)]) = p.read (.table [(key, w)]) := by
  rw [h.read, h.read]
  cases hkey : variants.lookup key with
  | none => rfl
  | some a =>
      rw [h.entry_eq hkey] at hread
      rw [Option.bind_some, Option.bind_some, hread]

theorem ByKey.read_none (h : p.ByKey variants contents build) {entries : List (String × Value)}
    (hread : (p.entry entries key).read v = none) : p.read (.table [(key, v)]) = none := by
  rw [h.read]
  cases hkey : variants.lookup key with
  | none => rfl
  | some a =>
      rw [h.entry_eq hkey] at hread
      rw [Option.bind_some, hread]
      rfl

end ByKey

theorem read_single_congr (hclosed : p.isOpen = false) {entries : List (String × Value)}
    (h : (p.entry entries key).read v = (p.entry entries key).read w) :
    p.read (.table [(key, v)]) = p.read (.table [(key, w)]) := by
  cases p
  case expr => exact byKey_expr.read_congr h
  case jumpMode => exact byKey_jumpMode.read_congr h
  case storage => exact byKey_storage.read_congr h
  -- The other closed parts do not look at what a table holds.
  all_goals first | rfl | cases hclosed

theorem read_single_none (hclosed : p.isOpen = false) {entries : List (String × Value)}
    (h : (p.entry entries key).read v = none) : p.read (.table [(key, v)]) = none := by
  cases p
  case expr => exact byKey_expr.read_none h
  case jumpMode => exact byKey_jumpMode.read_none h
  case storage => exact byKey_storage.read_none h
  case ignored => cases (show some () = none from h)
  all_goals first | rfl | cases hclosed

end Part

/-! ## Entries and elements -/

section Steps

variable {p : Part} {before after : List (String × Value)} {key : String} {v w : Value}

theorem Part.read_of_perm {entries entries' : List (String × Value)}
    (hkeys : (entries.map (·.1)).Nodup) (hperm : entries.Perm entries') :
    p.read (.table entries) = p.read (.table entries') := by
  cases hopen : p.isOpen with
  | true => exact (byFields hopen).table fun _ => by rw [lookup_of_perm hkeys hperm]
  | false =>
      by_cases hp : p = .ignored
      · subst hp
        rfl
      · match entries, hperm with
        | [], hperm => rw [hperm.nil_eq]
        | [e], hperm => rw [List.perm_singleton.mp hperm.symm]
        | e :: e' :: entries, hperm =>
          have htwo : 2 ≤ (e :: e' :: entries).length := by simp
          rw [read_table_of_two_le hopen hp htwo,
            read_table_of_two_le hopen hp (hperm.length_eq ▸ htwo)]

theorem Part.read_foreign (hopen : p.isOpen = true)
    (hkey : key ∉ (p.fields ((before ++ after).lookup kindField)).map (·.1)) :
    p.read (.table (before ++ after)) = p.read (.table (before ++ (key, v) :: after)) := by
  refine (byFields hopen).table fun {name q} hq => ?_
  have hne : name ≠ key := fun heq => hkey (List.mem_map.mpr ⟨_, hq, heq⟩)
  rw [lookup_of_ne hne]

/-- What the value of a key is read as does not depend on that value, not even where it tells the
kind of a statement. -/
theorem Part.entry_update (hkey : key ∉ before.map (·.1)) :
    p.entry (before ++ (key, v) :: after) key = p.entry (before ++ (key, w) :: after) key := by
  by_cases heq : kindField = key
  · subst heq
    cases p <;> rfl
  · unfold entry
    rw [lookup_of_ne heq, lookup_of_ne heq]

theorem Part.ByFields.entry_eq {entries : List (String × Value)} (h : p.ByFields) {q : Part}
    (hq : (key, q) ∈ p.fields (entries.lookup kindField)) : p.entry entries key = q := by
  unfold entry
  rw [lookup_of_mem (h.nodup _) hq]
  rfl

theorem Part.read_entry (hkey : key ∉ before.map (·.1))
    (h : (p.entry (before ++ (key, v) :: after) key).read v =
      (p.entry (before ++ (key, v) :: after) key).read w) :
    p.read (.table (before ++ (key, v) :: after)) =
      p.read (.table (before ++ (key, w) :: after)) := by
  cases hopen : p.isOpen with
  | true =>
      refine (byFields hopen).table fun {name q} hq => ?_
      by_cases heq : name = key
      · subst heq
        rw [(byFields hopen).entry_eq hq] at h
        rw [lookup_of_append_cons hkey, lookup_of_append_cons hkey]
        exact congrArg some h
      · rw [lookup_of_ne heq, lookup_of_ne heq]
  | false =>
      rcases eq_nil_or_two_le before after with ⟨rfl, rfl⟩ | htwo
      · exact read_single_congr hopen h
      · by_cases hp : p = .ignored
        · subst hp
          rfl
        · rw [read_table_of_two_le hopen hp (htwo _), read_table_of_two_le hopen hp (htwo _)]

theorem Part.read_entry_none (hkey : key ∉ before.map (·.1))
    (h : (p.entry (before ++ (key, v) :: after) key).read v = none) :
    p.read (.table (before ++ (key, v) :: after)) = none := by
  cases hopen : p.isOpen with
  | true =>
      cases hq : (p.fields ((before ++ (key, v) :: after).lookup kindField)).lookup key with
      | none =>
          rw [entry, hq] at h
          cases h
      | some q =>
          rw [entry, hq] at h
          refine (byFields hopen).table_none (mem_of_lookup hq) ?_
          rw [lookup_of_append_cons hkey]
          exact congrArg some h
  | false =>
      rcases eq_nil_or_two_le before after with ⟨rfl, rfl⟩ | htwo
      · exact read_single_none hopen h
      · by_cases hp : p = .ignored
        · subst hp
          cases (show some () = none from h)
        · exact read_table_of_two_le hopen hp (htwo _)

/-! ## Elements -/

variable {isHeaded : Bool} {first last : List Value}

theorem Part.read_list (each : Part) (isHeaded : Bool) (items : List Value) :
    (Part.list each).read (.array isHeaded items) = items.mapM each.read :=
  toOption_decodeList each.decode isHeaded items

theorem Part.read_expr_array (isHeaded : Bool) (items : List Value) :
    Part.expr.read (.array isHeaded items) = none := by
  show (decodeExpr _).toOption = none
  rw [decodeExpr]
  · rfl
  all_goals
    intros
    contradiction

theorem Part.item_of_open (hopen : p.isOpen = true) (items : List Value) (i : Nat) :
    p.item items i = ((p.fields items.head?)[i]?.map (·.2)).getD .ignored := by
  cases p <;> first | rfl | cases hopen

theorem Part.read_item
    (h : (p.item (first ++ v :: last) first.length).read v =
      (p.item (first ++ v :: last) first.length).read w) :
    p.read (.array isHeaded (first ++ v :: last)) =
      p.read (.array isHeaded (first ++ w :: last)) := by
  cases hopen : p.isOpen with
  | true =>
      refine (byFields hopen).array (by simp) fun {i name q} hq => ?_
      by_cases hi : i = first.length
      · subst hi
        rw [item_of_open hopen, hq] at h
        rw [getElem?_append_cons, getElem?_append_cons]
        exact congrArg some h
      · rw [getElem?_append_cons_of_ne hi]
  | false =>
      cases p
      case list each =>
        have heach : each.read v = each.read w := h
        rw [read_list, read_list, List.mapM_append, List.mapM_append, List.mapM_cons,
          List.mapM_cons, heach]
      case expr => rw [read_expr_array, read_expr_array]
      case noContents => cases isHeaded <;> cases first <;> rfl
      all_goals first | rfl | cases hopen

/-- What an element is read as does not depend on that element. -/
theorem Part.item_update : p.item (first ++ v :: last) first.length =
    p.item (first ++ w :: last) first.length := by
  cases first with
  | nil => cases p <;> rfl
  | cons u first => rfl

theorem Part.read_item_none
    (h : (p.item (first ++ v :: last) first.length).read v = none) :
    p.read (.array isHeaded (first ++ v :: last)) = none := by
  cases hopen : p.isOpen with
  | true =>
      rw [item_of_open hopen] at h
      cases hq : (p.fields (first ++ v :: last).head?)[first.length]? with
      | none =>
          rw [hq] at h
          cases h
      | some field =>
          rw [hq] at h
          refine (byFields hopen).array_none hq ?_
          rw [getElem?_append_cons]
          exact congrArg some h
  | false =>
      cases p
      case list each =>
        have heach : each.read v = none := h
        rw [read_list, List.mapM_append, List.mapM_cons, heach]
        cases first.mapM each.read <;> rfl
      case expr => exact read_expr_array ..
      case noContents => cases isHeaded <;> cases first <;> rfl
      case ignored => cases (show some () = none from h)
      all_goals first | rfl | cases hopen

end Steps

/-! ## Documents -/

section Documents

variable {p : Part} {v w : Value}

theorem Rearranges.read_eq (h : Rearranges p v w) : p.read v = p.read w := by
  cases h with
  | reorder hkeys hperm => exact Part.read_of_perm hkeys hperm
  | foreign _ _ hopen hkey => exact Part.read_foreign hopen hkey

/-- By induction on where the change is: what is read of a part depends on what is read in it. -/
theorem Inside.read_eq (h : Inside Rearranges p v w) : p.read v = p.read w := by
  induction h with
  | here h => exact h.read_eq
  | entry _ _ hkey _ ih => exact Part.read_entry hkey ih
  | item _ _ _ ih => exact Part.read_item ih

theorem AddsKeys.read_eq_none (h : AddsKeys p v w) : p.read w = none := by
  cases h with
  | expr before after h =>
      refine Part.read_table_of_two_le (p := .expr) rfl Part.noConfusion ?_
      have hlength := List.length_pos_iff.mpr h
      simp only [List.length_append, List.length_cons] at hlength ⊢
      omega

theorem Inside.read_eq_none (h : Inside AddsKeys p v w) : p.read w = none := by
  induction h with
  | here h => exact h.read_eq_none
  | entry _ _ hkey _ ih =>
      rw [Part.entry_update hkey] at ih
      exact Part.read_entry_none hkey ih
  | item _ _ _ ih =>
      rw [Part.item_update] at ih
      exact Part.read_item_none ih

theorem read_eq_of_eqvGen (h : EqvGen (Inside Rearranges p) v w) : p.read v = p.read w := by
  induction h with
  | rel v w h => exact h.read_eq
  | refl v => rfl
  | symm v w _ ih => exact ih.symm
  | trans u v w _ _ ihu ihv => exact ihu.trans ihv

/-- Rearranging a document changes neither the script that it describes nor whether there is one,
while no script is left when an expression gets a further key. -/
theorem ofEntries_keys (entries entries' : List (String × Value)) :
    (EqvGen (Inside Rearranges .script) (.table entries) (.table entries') →
      ∀ s, ofEntries entries = .ok s ↔ ofEntries entries' = .ok s) ∧
    (Inside AddsKeys .script (.table entries) (.table entries') →
      ∀ s, ofEntries entries' ≠ .ok s) := by
  constructor
  case left =>
    intro h s
    have hread : (ofEntries entries).toOption = (ofEntries entries').toOption :=
      read_eq_of_eqvGen h
    rw [← toOption_eq_some, ← toOption_eq_some, hread]
  case right =>
    intro h s hs
    have hread : (ofEntries entries').toOption = none := h.read_eq_none
    rw [hs] at hread
    cases hread

/-- A document with a cell and one statement. -/
def oneStatement (fields : List (String × Value)) : List (String × Value) :=
  [("procedure", .table []),
    ("cells", .array true [.table [("name", .string "x"), ("class", .string "local")]]),
    ("body", .array true [.table fields])]

theorem Inside.oneStatement {R : Part → Value → Value → Prop}
    {fields fields' : List (String × Value)}
    (h : Inside R .stmt (.table fields) (.table fields')) :
    Inside R .script (.table (oneStatement fields)) (.table (oneStatement fields')) :=
  .entry [_, _] [] (by decide) (.item [] [] h)

def kindFirst : List (String × Value) :=
  [("op", .string "store"), ("cell", .string "x"), ("value", .table [("num", .integer 7)])]

/-- The same store, with a key of no meaning and its kind last. -/
def kindLast : List (String × Value) :=
  [("note", .integer 1), ("value", .table [("num", .integer 7)]), ("cell", .string "x"),
    ("op", .string "store")]

/-- The same key in the value stored. -/
def noteInValue : List (String × Value) :=
  [("note", .integer 1), ("value", .table [("num", .integer 7), ("note", .integer 1)]),
    ("cell", .string "x"), ("op", .string "store")]

theorem read_kindFirst : Part.stmt.read (.table kindFirst) = some (.store "x" (.num 7) false) := by
  have hvalue : decodeExpr (.table [("num", .integer 7)]) = .ok (.num 7) := by
    rw [decodeExpr_table]
    rfl
  let r : Record := { shape := StmtKind.shape .store, entries := kindFirst.tail }
  have hgiven : r.given "value" decodeExpr = some (some (.num 7)) :=
    congrArg (fun x => some (Except.toOption x)) hvalue
  show ((Stmt.store <$> r.required "cell" (fun v _ => decodeString v)
    <*> r.required "value" (fun v _ => decodeExpr v)
    <*> r.defaulted "init" false (fun v _ => decodeBool v)) <* r.noExtras).value? = _
  rw [Checked.value?_seqLeft, Checked.value?_seq, Checked.value?_seq, Checked.value?_map,
    r.value?_required "value" decodeExpr, hgiven]
  rfl

theorem ofEntries_kindFirst : ofEntries (oneStatement kindFirst) = .ok
      { header := {}
        cells := [⟨"x", .localVar, none, false, false, false⟩]
        body := [.store "x" (.num 7) false] } := by
  let r : Record := { shape := scriptShape, entries := oneStatement kindFirst }
  let decodeBody : Value → Decoded (List Stmt) := fun v => decodeList v fun x _ => decodeStmt x
  have hgiven : r.given "body" decodeBody = some (some [.store "x" (.num 7) false]) := by
    have hbody : (Part.list .stmt).read (.array true [.table kindFirst]) =
        some [.store "x" (.num 7) false] := by
      rw [Part.read_list, List.mapM_cons, read_kindFirst]
      rfl
    exact congrArg some hbody
  refine toOption_eq_some.mp ?_
  show (Script.mk <$> r.required "procedure" (fun v _ => decodeHeader v)
    <*> r.defaulted "cells" [] (fun v _ => decodeList v fun x _ => decodeCell x)
    <*> r.defaulted "body" [] (fun v _ => decodeBody v)).value? = _
  rw [Checked.value?_seq, r.value?_defaulted "body", hgiven]
  rfl

theorem ofEntries_keys_kindLast :
    ofEntries (oneStatement kindLast) = .ok
      { header := {}
        cells := [⟨"x", .localVar, none, false, false, false⟩]
        body := [.store "x" (.num 7) false] } ∧
      ∀ s, ofEntries (oneStatement noteInValue) ≠ .ok s := by
  have hreorder : Inside Rearranges .stmt (.table kindFirst) (.table kindFirst.reverse) :=
    .here (.reorder (by decide) kindFirst.reverse_perm.symm)
  have hforeign : Inside Rearranges .stmt (.table kindFirst.reverse) (.table kindLast) :=
    .here (.foreign [] _ rfl (by decide))
  have hadds : Inside AddsKeys .stmt (.table kindLast) (.table noteInValue) :=
    .entry [_] _ (by decide) (.here (.expr [] _ (by decide)))
  have hchanged : EqvGen (Inside Rearranges .script) (.table (oneStatement kindFirst))
      (.table (oneStatement kindLast)) :=
    .trans _ _ _ (.rel _ _ hreorder.oneStatement) (.rel _ _ hforeign.oneStatement)
  exact ⟨((ofEntries_keys _ _).1 hchanged _).mp ofEntries_kindFirst,
    (ofEntries_keys _ _).2 hadds.oneStatement⟩

end Documents

end StackIR.Script
