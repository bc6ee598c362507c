import StackIR.Script.Basic
import StackIR.Script.Schema

/-!
# Decoding scripts

The script that a TOML table describes. Fields of another name are ignored, and a field left out
takes its default if it has one. An expression is a table of one entry, which names its kind and
holds its contents, or just the name of a kind without contents. The kind of a statement is its
field `op`, which is looked at before all others.
-/

namespace StackIR.Script

open Toml

/-- The name of the one entry of a date or time seen as a table. -/
def dateTimeKey : String := "$__toml_private_datetime"

/-! ## Expressions -/

/-- The kinds of expressions. -/
inductive ExprKind where
  | num | bool | pointer | load | call | procCall | field | sequence | jumpValue
deriving Repr, DecidableEq

/-- The kinds of expressions by name. -/
def exprKinds : List (String × ExprKind) :=
  [("num", .num), ("bool", .bool), ("ptr", .pointer), ("load", .load), ("call", .call),
    ("proc_call", .procCall), ("field", .field), ("seq", .sequence), ("jmp_value", .jumpValue)]

/-- The expression that a name alone stands for. -/
def ExprKind.alone : ExprKind → Decoded Expr
  | .jumpValue => .ok .jumpValue
  | .pointer | .procCall | .field => .error (.wrongType "unit variant" "struct variant")
  | _ => .error (.wrongType "unit variant" "newtype variant")

/-- The fields of a pointer. -/
def pointerShape : Shape := ⟨"struct variant ExprSpec::Ptr", ["label", "info"]⟩

/-- The fields of a runtime call. -/
def callShape : Shape := ⟨"struct CallSpec", ["name", "mask", "is_async", "args"]⟩

/-- The fields of a call of a procedure. -/
def procCallShape : Shape :=
  ⟨"struct variant ExprSpec::ProcCall", ["callee", "is_async", "args"]⟩

/-- The fields of a field access. -/
def fieldShape : Shape := ⟨"struct variant ExprSpec::Field", ["of", "index"]⟩

/-- A value that has no contents. -/
def decodeUnit : Value → Decoded Unit
  | .table [] => .ok ()
  | v => .error (.wrongType (describe v) "unit")

/-- Reads a value as a record without foreign elements. -/
def decodeRecord (shape : Shape) (expected : String) (v : Value)
    (read : (r : Record) → Record.ofValue? shape v = some r → Checked α) : Decoded α :=
  match h : Record.ofValue? shape v with
  | none => .error (.wrongType (describe v) expected)
  | some r => (read r h <* r.noExtras).result

/-- An expression. -/
def decodeExpr (v : Value) : Decoded Expr :=
  match v with
  | .string name => do (← decodeVariant exprKinds name).alone
  | .dateTime => do (← decodeVariant exprKinds dateTimeKey).alone
  | .table [(name, contents)] => do
    match ← decodeVariant exprKinds name with
    | .num => .num <$> decodeInt32 contents
    | .bool => .bool <$> decodeBool contents
    | .pointer =>
      decodeRecord pointerShape "struct variant" contents fun r _ =>
        .pointer <$> r.required "label" (fun v _ => decodeString v)
          <*> r.defaulted "info" "" (fun v _ => decodeString v)
    | .load => .load <$> decodeString contents
    | .call =>
      decodeRecord callShape callShape.name contents fun r hr =>
        .call <$> r.required "name" (fun v _ => decodeString v)
          <*> r.defaulted "mask" 0 (fun v _ => UInt32.toBitVec <$> decodeUInt32 v)
          <*> r.defaulted "is_async" false (fun v _ => decodeBool v)
          <*> r.defaulted "args" [] (fun v hv => decodeList v fun x _ =>
            have := Record.sizeOf_lt_of_mem_values hr hv
            decodeExpr x)
    | .procCall =>
      decodeRecord procCallShape "struct variant" contents fun r hr =>
        .procCall <$> r.required "callee" (fun v _ => decodeUInt32 v)
          <*> r.defaulted "is_async" false (fun v _ => decodeBool v)
          <*> r.defaulted "args" [] (fun v hv => decodeList v fun x _ =>
            have := Record.sizeOf_lt_of_mem_values hr hv
            decodeExpr x)
    | .field =>
      decodeRecord fieldShape "struct variant" contents fun r hr =>
        .field <$> r.required "of" (fun v hv =>
            have := Record.sizeOf_lt_of_mem_values hr hv
            decodeExpr v)
          <*> r.required "index" (fun v _ => decodeNat v)
    | .sequence => .sequence <$> decodeList contents fun x _ => decodeExpr x
    | .jumpValue => (fun _ => .jumpValue) <$> decodeUnit contents
  | .table _ => .error (.wrongValue "map" "map with a single key")
  | v => .error (.wrongType (describe v) "string or map")
termination_by sizeOf v
decreasing_by
  all_goals
    simp only [Value.table.sizeOf_spec, List.cons.sizeOf_spec, List.nil.sizeOf_spec,
      Prod.mk.sizeOf_spec]
    omega

/-! ## Statements -/

/-- The modes of jumps by name. -/
def jumpModes : List (String × JumpMode) :=
  [("always", .always), ("if_zero", .ifZero), ("if_not_zero", .ifNotZero)]

/-- The mode of a jump: its name, alone or as the one key of a table. -/
def decodeJumpMode : Value → Decoded JumpMode
  | .string name => decodeVariant jumpModes name
  | .dateTime => decodeVariant jumpModes dateTimeKey
  | .table [(name, contents)] => do
    let mode ← decodeVariant jumpModes name
    decodeUnit contents
    return mode
  | .table _ => .error (.wrongValue "map" "map with a single key")
  | v => .error (.wrongType (describe v) "string or map")

/-- The kinds of statements. -/
inductive StmtKind where
  | expr | store | label | jump | stackEmpty | clear | clearAll
deriving Repr, DecidableEq

/-- The kinds of statements by name. -/
def stmtKinds : List (String × StmtKind) :=
  [("expr", .expr), ("store", .store), ("label", .label), ("jmp", .jump),
    ("stack_empty", .stackEmpty), ("clr", .clear), ("clrs", .clearAll)]

/-- The fields of a statement that has none. -/
def noFields : Shape := ⟨"a statement without fields", []⟩

/-- The fields of a kind of statement. -/
def StmtKind.shape : StmtKind → Shape
  | .expr => ⟨"struct variant StmtSpec::Expr", ["expr"]⟩
  | .store => ⟨"struct variant StmtSpec::Store", ["cell", "value", "init"]⟩
  | .label => ⟨"struct variant StmtSpec::Label", ["name"]⟩
  | .jump => ⟨"struct variant StmtSpec::Jmp", ["target", "mode", "cond"]⟩
  | .stackEmpty | .clearAll => noFields
  | .clear => ⟨"struct variant StmtSpec::Clr", ["cell"]⟩

/-- The fields of a statement, once its kind is known. -/
def StmtKind.decode (k : StmtKind) (r : Record) : Checked Stmt :=
  match k with
  | .expr => .expr <$> r.required "expr" (fun v _ => decodeExpr v)
  | .store =>
    .store <$> r.required "cell" (fun v _ => decodeString v)
      <*> r.required "value" (fun v _ => decodeExpr v)
      <*> r.defaulted "init" false (fun v _ => decodeBool v)
  | .label => .label <$> r.required "name" (fun v _ => decodeString v)
  | .jump =>
    .jump <$> r.required "target" (fun v _ => decodeString v)
      <*> r.defaulted "mode" .always (fun v _ => decodeJumpMode v)
      <*> r.optional "cond" (fun v _ => decodeExpr v)
  | .stackEmpty => pure .stackEmpty
  | .clear => .clear <$> r.required "cell" (fun v _ => decodeString v)
  | .clearAll => pure .clearAll

/-- The name of the field that tells the kind of a statement. -/
def kindField : String := "op"

/-- The kind of a statement. -/
def decodeStmtKind : Value → Decoded StmtKind
  | .string name => decodeVariant stmtKinds name
  | v => .error (.wrongType (describe v) "variant identifier")

/-- A statement of a kind, given what else belongs to it. -/
def decodeStmtOf (kind fields : Value) : Decoded Stmt := do
  let k ← decodeStmtKind kind
  decodeRecord k.shape k.shape.name fields fun r _ => k.decode r

/-- A statement. In an array, the kind comes first. -/
def decodeStmt : Value → Decoded Stmt
  | .table entries =>
    match entries.lookup kindField with
    | none => .error (.missingField kindField)
    | some kind => decodeStmtOf kind (.table (entries.filter (·.1 ≠ kindField)))
  | .array isHeaded (kind :: items) => decodeStmtOf kind (.array isHeaded items)
  | .array _ [] | .dateTime => .error (.missingField kindField)
  | v => .error (.wrongType (describe v) "internally tagged enum StmtSpec")

/-! ## Header and cells -/

/-- The fields of the header. -/
def headerShape : Shape := ⟨"struct ProcedureHeader", ["name", "id", "parent", "root"]⟩

/-- The fields of a cell. -/
def cellShape : Shape :=
  ⟨"struct CellSpec", ["name", "class", "decl", "ref_counted", "captured", "written"]⟩

/-- Reads a value as a record, of which an array may have more elements than fields. -/
def decodeOpenRecord (shape : Shape) (v : Value) (read : Record → Checked α) : Decoded α :=
  match Record.ofValue? shape v with
  | none => .error (.wrongType (describe v) shape.name)
  | some r => (read r).result

/-- The header. -/
def decodeHeader (v : Value) : Decoded Header :=
  decodeOpenRecord headerShape v fun r =>
    Header.mk <$> r.optional "name" (fun v _ => decodeString v)
      <*> r.defaulted "id" 0 (fun v _ => decodeUInt32 v)
      <*> r.optional "parent" (fun v _ => decodeUInt32 v)
      <*> r.defaulted "root" false (fun v _ => decodeBool v)

/-- The classes of cells by name. -/
def storages : List (String × Storage) :=
  [("arg", .argument), ("local", .localVar), ("captured", .captured), ("global", .global)]

/-- Nothing, in place of what could follow the name of a class. -/
def decodeNoContents : Value → Decoded Unit
  | .table [] | .array _ [] => .ok ()
  | .table _ | .array false _ => .error .classWithContents
  | .array true _ => .error .classWithTables
  | .string _ => .error (.classWithValue "string")
  | .integer _ => .error (.classWithValue "integer")
  | .float _ => .error (.classWithValue "float")
  | .boolean _ => .error (.classWithValue "boolean")
  | .dateTime => .error (.classWithValue "datetime")

/-- The class of a cell: its name, alone or as the one key of a table. -/
def decodeStorage : Value → Decoded Storage
  | .string name => decodeVariant storages name
  | .table [(name, contents)] => do
    let storage ← decodeVariant storages name
    decodeNoContents contents
    return storage
  | .table entries => .error (.notOneClass entries.isEmpty)
  | _ => .error .noClass

/-- A cell. -/
def decodeCell (v : Value) : Decoded CellSpec :=
  decodeOpenRecord cellShape v fun r =>
    CellSpec.mk <$> r.required "name" (fun v _ => decodeString v)
      <*> r.required "class" (fun v _ => decodeStorage v)
      <*> r.optional "decl" (fun v _ => decodeUInt32 v)
      <*> r.defaulted "ref_counted" false (fun v _ => decodeBool v)
      <*> r.defaulted "captured" false (fun v _ => decodeBool v)
      <*> r.defaulted "written" false (fun v _ => decodeBool v)

/-! ## Scripts -/

/-- The fields of a script. -/
def scriptShape : Shape := ⟨"script", ["procedure", "cells", "body"]⟩

/-- The script that the entries of a document describe. -/
def ofEntries (entries : List (String × Value)) : Decoded Script :=
  let r : Record := { shape := scriptShape, entries }
  Checked.result <|
    Script.mk <$> r.required "procedure" (fun v _ => decodeHeader v)
      <*> r.defaulted "cells" [] (fun v _ => decodeList v fun x _ => decodeCell x)
      <*> r.defaulted "body" [] (fun v _ => decodeList v fun x _ => decodeStmt x)

end StackIR.Script
