import StackIR.Decimal.Shortest
import StackIR.Text.Quoted
import StackIR.Toml.Value

/-!
# Reading records

A record is written as a table, whose entries name its fields, or as an array, which gives them in
their declared order. All fields are read on their own and the reading fails with the complaint
that comes first in the document (`Checked`), so the entries of a table can stand in any order.
-/

namespace StackIR.Script

open Toml

/-! ## Errors -/

/-- Why a value does not describe a part of a script. -/
inductive SchemaError where
  /-- A value of another kind was expected. -/
  | wrongType (found expected : String)
  /-- The kind is right, but not the value. -/
  | wrongValue (found expected : String)
  /-- An array has too few elements or too many. -/
  | wrongLength (length : Nat) (expected : String)
  | missingField (name : String)
  | unknownVariant (name : String) (known : List String)
  /-- The class of a cell is neither a name nor a table. -/
  | noClass
  /-- The class of a cell is a table, but not of one entry. -/
  | notOneClass (isEmpty : Bool)
  /-- The class of a cell is given more than its name. -/
  | classWithContents
  /-- The class of a cell is given tables, under headers of their own. -/
  | classWithTables
  /-- The class of a cell is given a value that is no table. -/
  | classWithValue (kind : String)
deriving Repr, DecidableEq

def SchemaError.message : SchemaError → String
  | .wrongType found expected => "invalid type: " ++ found ++ ", expected " ++ expected
  | .wrongValue found expected => "invalid value: " ++ found ++ ", expected " ++ expected
  | .wrongLength length expected =>
    "invalid length " ++ length.repr ++ ", expected " ++ expected
  | .missingField name => "missing field `" ++ name ++ "`"
  | .unknownVariant name known =>
    "unknown variant `" ++ name ++ "`, expected one of " ++
      ", ".intercalate (known.map fun k => "`" ++ k ++ "`")
  | .noClass => "wanted string or table"
  | .notOneClass true => "wanted exactly 1 element, found 0 elements"
  | .notOneClass false => "wanted exactly 1 element, more than 1 element"
  | .classWithContents => "expected empty table"
  | .classWithTables => "expected empty array"
  | .classWithValue kind => "expected table, found " ++ kind

def describe : Value → String
  | .string s => "string " ++ Text.quote s
  | .integer n => "integer `" ++ n.repr ++ "`"
  | .float x => "floating point `" ++ Decimal.floatText x ++ "`"
  | .boolean b => "boolean `" ++ (if b then "true" else "false") ++ "`"
  | .array .. => "sequence"
  | .table _ | .dateTime => "map"

/-! ## Single values -/

abbrev Decoded (α : Type) := Except SchemaError α

def decodeString : Value → Decoded String
  | .string s => .ok s
  | v => .error (.wrongType (describe v) "a string")

def decodeBool : Value → Decoded Bool
  | .boolean b => .ok b
  | v => .error (.wrongType (describe v) "a boolean")

/-- An integer from `low` up to but without `high`. -/
def decodeInt (expected : String) (low : Int) (high : Option Int) : Value → Decoded Int
  | .integer n =>
    if low ≤ n && high.all (n < ·) then .ok n
    else .error (.wrongValue (describe (.integer n)) expected)
  | v => .error (.wrongType (describe v) expected)

def decodeInt32 (v : Value) : Decoded Int32 :=
  Int32.ofInt <$> decodeInt "i32" (-Int.pow 2 31) (some (Int.pow 2 31)) v

def decodeUInt32 (v : Value) : Decoded UInt32 :=
  (·.toNat.toUInt32) <$> decodeInt "u32" 0 (some (Int.pow 2 32)) v

def decodeNat (v : Value) : Decoded Nat :=
  Int.toNat <$> decodeInt "usize" 0 none v

/-- The elements of an array, each read knowing that it is smaller than the array. -/
def decodeList (v : Value) (read : (x : Value) → sizeOf x < sizeOf v → Decoded α) :
    Decoded (List α) :=
  match v with
  | .array _ items => items.attach.mapM fun ⟨x, h⟩ => read x <| by
      have := List.sizeOf_lt_of_mem h
      simp only [Value.array.sizeOf_spec]
      omega
  | v => .error (.wrongType (describe v) "a sequence")

/-- The variant with a name. -/
def decodeVariant (variants : List (String × α)) (name : String) : Decoded α :=
  match variants.lookup name with
  | some a => .ok a
  | none => .error (.unknownVariant name (variants.map (·.1)))

/-! ## Complaints -/

/-- An error, with the place in the record where it comes up. -/
structure Complaint where
  place : Nat
  error : SchemaError
deriving Repr, DecidableEq

/-- The result of reading some fields of a record: what they hold, or the first complaint. -/
def Checked (α : Type) := Except Complaint α

namespace Checked

/-- The complaint that comes first; of two at one place, the first given. -/
def first (c d : Complaint) : Complaint :=
  if d.place < c.place then d else c

/-- Reads with both, whatever the first yields. -/
protected def seq (f : Checked (α → β)) (a : Unit → Checked α) : Checked β :=
  match f, a () with
  | .ok f, .ok a => .ok (f a)
  | .ok _, .error d => .error d
  | .error c, .ok _ => .error c
  | .error c, .error d => .error (first c d)

instance : Applicative Checked where
  pure := Except.ok
  seq := Checked.seq

/-- The value, or the error of the first complaint. -/
def result : Checked α → Decoded α
  | .ok a => .ok a
  | .error c => .error c.error

end Checked

/-! ## Records -/

/-- The name of a kind of record, and its fields in declared order. -/
structure Shape where
  name : String
  fields : List String
deriving Repr, DecidableEq

def elements (n : Nat) : String :=
  n.repr ++ (if n = 1 then " element" else " elements")

/-- A value that is to be read as a record. -/
structure Record where
  shape : Shape
  /-- The fields given, in the order of the document. -/
  entries : List (String × Value)
  /-- The number of elements, if the record is written as an array. -/
  length? : Option Nat := none

namespace Record

/-- Reads a value as a record of the given shape. A date or time is a table of foreign fields. -/
def ofValue? (shape : Shape) : Value → Option Record
  | .table entries => some { shape, entries }
  | .array _ items => some { shape, entries := shape.fields.zip items, length? := items.length }
  | .dateTime => some { shape, entries := [] }
  | _ => none

def values (r : Record) : List Value :=
  r.entries.map (·.2)

theorem sizeOf_lt_of_mem_values {shape : Shape} {v x : Value} {r : Record}
    (h : ofValue? shape v = some r) (hx : x ∈ r.values) : sizeOf x < sizeOf v := by
  obtain ⟨⟨k, y⟩, hmem, rfl⟩ := List.mem_map.mp hx
  cases v with
  | table entries =>
      obtain rfl := Option.some.inj h
      have := List.sizeOf_lt_of_mem hmem
      simp only [Prod.mk.sizeOf_spec, Value.table.sizeOf_spec] at *
      omega
  | array _ items =>
      obtain rfl := Option.some.inj h
      have := List.sizeOf_lt_of_mem (List.of_mem_zip hmem).2
      simp only [Value.array.sizeOf_spec] at *
      omega
  | dateTime =>
      obtain rfl := Option.some.inj h
      cases hmem
  | _ => simp [ofValue?] at h

/-- The value of a field, with its place in the record. -/
def find? (r : Record) (name : String) : Option (Nat × { v : Value // v ∈ r.values }) :=
  match h : r.entries.findIdx? (·.1 = name) with
  | none => none
  | some i =>
    have h : i < r.entries.length := (List.findIdx?_eq_some_iff_getElem.mp h).1
    some (i, ⟨r.entries[i].2, List.mem_map_of_mem (List.getElem_mem h)⟩)

/-- The complaint about a field that is not given: behind those about the fields that are, in
declared order. -/
def missing (r : Record) (name : String) : Complaint where
  place := r.entries.length + r.shape.fields.idxOf name
  error :=
    match r.length? with
    | none => .missingField name
    | some _ => .wrongLength (r.shape.fields.idxOf name)
        (r.shape.name ++ " with " ++ elements r.shape.fields.length)

/-- Reads a field, which may be left out. -/
def field? (r : Record) (name : String) (read : (v : Value) → v ∈ r.values → Decoded α) :
    Checked (Option α) :=
  match r.find? name with
  | none => .ok none
  | some (place, ⟨v, h⟩) =>
    match read v h with
    | .ok a => .ok (some a)
    | .error error => .error { place, error }

/-- Reads a field that has to be given. -/
def required (r : Record) (name : String) (read : (v : Value) → v ∈ r.values → Decoded α) :
    Checked α :=
  match r.field? name read with
  | .ok (some a) => .ok a
  | .ok none => .error (r.missing name)
  | .error c => .error c

/-- Reads a field with a default. -/
def defaulted (r : Record) (name : String) (default : α)
    (read : (v : Value) → v ∈ r.values → Decoded α) : Checked α :=
  (·.getD default) <$> r.field? name read

/-- Reads a field that a table can leave out but an array cannot. -/
def optional (r : Record) (name : String) (read : (v : Value) → v ∈ r.values → Decoded α) :
    Checked (Option α) :=
  if r.length?.isSome then some <$> r.required name read else r.field? name read

/-- Complains about elements of an array that belong to no field. -/
def noExtras (r : Record) : Checked Unit :=
  let count := r.shape.fields.length
  match r.length? with
  | some n =>
    if n ≤ count then .ok ()
    else .error { place := n, error := .wrongLength n (elements count ++ " in sequence") }
  | none => .ok ()

end Record

end StackIR.Script
