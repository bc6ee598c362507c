import StackIR.Proofs.Readings

/-!
# The parts of a script

What a value in a document is read as (`Part`): a script, a cell, an expression, a name. The fields
of a part say what the entries of its table are read as in turn (`Part.fields`), and reading a
record depends on those fields alone (`Part.readsRecord`).
-/

namespace StackIR.Script

open Toml

/-- What a value of a document is read as. -/
inductive Part where
  | script
  | header
  | cell
  | stmt
  | expr
  /-- The contents of a pointer, of calls and of a field access. -/
  | pointer
  | call
  | procCall
  | field
  | list (each : Part)
  | string
  | bool
  | int32
  | uint32
  | nat
  | mask
  | storage
  | jumpMode
  | stmtKind
  | unit
  | noContents
  /-- The value of a foreign key. -/
  | ignored

namespace Part

/-- What reading a part yields. -/
def Result : Part → Type
  | .script => Script
  | .header => Header
  | .cell => CellSpec
  | .stmt => Stmt
  | .expr | .pointer | .call | .procCall | .field => Expr
  | .list each => List each.Result
  | .string => String
  | .bool => Bool
  | .int32 => Int32
  | .uint32 => UInt32
  | .nat => Nat
  | .mask => BitVec 32
  | .storage => Storage
  | .jumpMode => JumpMode
  | .stmtKind => StmtKind
  | .unit | .noContents | .ignored => Unit

end Part

/-! ## Decoders -/

def readScript (r : Record) : Checked Script :=
  Script.mk <$> r.required "procedure" (fun v _ => decodeHeader v)
    <*> r.defaulted "cells" [] (fun v _ => decodeList v fun x _ => decodeCell x)
    <*> r.defaulted "body" [] (fun v _ => decodeList v fun x _ => decodeStmt x)

def readPointer (r : Record) : Checked Expr :=
  .pointer <$> r.required "label" (fun v _ => decodeString v)
    <*> r.defaulted "info" "" (fun v _ => decodeString v)

def readCall (r : Record) : Checked Expr :=
  .call <$> r.required "name" (fun v _ => decodeString v)
    <*> r.defaulted "mask" 0 (fun v _ => UInt32.toBitVec <$> decodeUInt32 v)
    <*> r.defaulted "is_async" false (fun v _ => decodeBool v)
    <*> r.defaulted "args" [] (fun v _ => decodeList v fun x _ => decodeExpr x)

def readProcCall (r : Record) : Checked Expr :=
  .procCall <$> r.required "callee" (fun v _ => decodeUInt32 v)
    <*> r.defaulted "is_async" false (fun v _ => decodeBool v)
    <*> r.defaulted "args" [] (fun v _ => decodeList v fun x _ => decodeExpr x)

def readField (r : Record) : Checked Expr :=
  .field <$> r.required "of" (fun v _ => decodeExpr v)
    <*> r.required "index" (fun v _ => decodeNat v)

/-- The value as what the part says. -/
def Part.decode : (p : Part) → Value → Decoded p.Result
  | .script => fun v => decodeOpenRecord scriptShape v readScript
  | .header => decodeHeader
  | .cell => decodeCell
  | .stmt => decodeStmt
  | .expr => decodeExpr
  | .pointer => fun v => decodeRecord pointerShape "struct variant" v fun r _ => readPointer r
  | .call => fun v => decodeRecord callShape callShape.name v fun r _ => readCall r
  | .procCall => fun v => decodeRecord procCallShape "struct variant" v fun r _ => readProcCall r
  | .field => fun v => decodeRecord fieldShape "struct variant" v fun r _ => readField r
  | .list each => fun v => decodeList v fun x _ => each.decode x
  | .string => decodeString
  | .bool => decodeBool
  | .int32 => decodeInt32
  | .uint32 => decodeUInt32
  | .nat => decodeNat
  | .mask => fun v => UInt32.toBitVec <$> decodeUInt32 v
  | .storage => decodeStorage
  | .jumpMode => decodeJumpMode
  | .stmtKind => decodeStmtKind
  | .unit => decodeUnit
  | .noContents => decodeNoContents
  | .ignored => fun _ => .ok ()

/-- What is read of a value, if it is what the part says. -/
def Part.read (p : Part) (v : Value) : Option p.Result :=
  (p.decode v).toOption

/-! ## Fields -/

/-- What the contents of a kind of expression are read as. -/
def ExprKind.contents : ExprKind → Part
  | .num => .int32
  | .bool => .bool
  | .pointer => .pointer
  | .load => .string
  | .call => .call
  | .procCall => .procCall
  | .field => .field
  | .sequence => .list .expr
  | .jumpValue => .unit

def ExprKind.build : (k : ExprKind) → k.contents.Result → Expr
  | .num => Expr.num
  | .bool => Expr.bool
  | .pointer | .call | .procCall | .field => id
  | .load => Expr.load
  | .sequence => Expr.sequence
  | .jumpValue => fun _ => .jumpValue

theorem decodeExpr_table (name : String) (contents : Value) :
    decodeExpr (.table [(name, contents)]) =
      decodeVariant exprKinds name >>= fun k => k.build <$> k.contents.decode contents := by
  rw [decodeExpr]
  congr 1
  funext k
  cases k <;> first | rfl | exact (id_map _).symm

def StmtKind.fields : StmtKind → List (String × Part)
  | .expr => [("expr", .expr)]
  | .store => [("cell", .string), ("value", .expr), ("init", .bool)]
  | .label => [("name", .string)]
  | .jump => [("target", .string), ("mode", .jumpMode), ("cond", .expr)]
  | .stackEmpty | .clearAll => []
  | .clear => [("cell", .string)]

/-- The keys that a part knows, with what their values are read as. A statement knows the fields of
its kind, of which the value is given. -/
def Part.fields : Part → Option Value → List (String × Part)
  | .script, _ => [("procedure", .header), ("cells", .list .cell), ("body", .list .stmt)]
  | .header, _ => [("name", .string), ("id", .uint32), ("parent", .uint32), ("root", .bool)]
  | .cell, _ =>
    [("name", .string), ("class", .storage), ("decl", .uint32), ("ref_counted", .bool),
      ("captured", .bool), ("written", .bool)]
  | .stmt, kind =>
    (kindField, .stmtKind) :: (kind.bind fun v => (decodeStmtKind v).toOption).elim [] (·.fields)
  | .expr, _ => exprKinds.map fun k => (k.1, k.2.contents)
  | .pointer, _ => [("label", .string), ("info", .string)]
  | .call, _ =>
    [("name", .string), ("mask", .mask), ("is_async", .bool), ("args", .list .expr)]
  | .procCall, _ => [("callee", .uint32), ("is_async", .bool), ("args", .list .expr)]
  | .field, _ => [("of", .expr), ("index", .nat)]
  | .jumpMode, _ => jumpModes.map fun k => (k.1, .unit)
  | .storage, _ => storages.map fun k => (k.1, .noContents)
  | _, _ => []

/-- Keys that the part does not know are ignored. -/
def Part.isOpen : Part → Bool
  | .script | .header | .cell | .stmt | .pointer | .call | .procCall | .field => true
  | _ => false

/-! ## Reading by fields -/

/-- Records of one form that give the same for some fields. -/
structure Record.Alike (fields : List (String × Part)) (r r' : Record) : Prop where
  shape : r.shape = r'.shape
  length? : r.length? = r'.length?
  given : ∀ {name p}, (name, p) ∈ fields → r.given name p.decode = r'.given name p.decode

theorem Record.Alike.of_subset {fields fields' : List (String × Part)} {r r' : Record}
    (h : r.Alike fields r') (hsubset : fields' ⊆ fields) : r.Alike fields' r' :=
  ⟨h.shape, h.length?, fun hp => h.given (hsubset hp)⟩

section Reads

variable {α β : Type} {fields fields' : List (String × Part)} (name : String) (p : Part)

/-- The fields decide what is read, and each of them has to be what its part says. -/
structure Reads (fields : List (String × Part)) (read : Record → Checked α) : Prop where
  congr : ∀ {r r' : Record}, r.Alike fields r' → (read r).value? = (read r').value?
  reject : ∀ {r : Record} {name p}, (name, p) ∈ fields → r.given name p.decode = some none →
    (read r).value? = none

namespace Reads

theorem pure (a : α) : Reads [] fun _ => Pure.pure a :=
  ⟨fun _ => rfl, fun h => nomatch h⟩

theorem map {x : Record → Checked α} (f : α → β) (h : Reads fields x) :
    Reads fields fun r => f <$> x r where
  congr halike := by rw [Checked.value?_map, Checked.value?_map, h.congr halike]
  reject hp hgiven := by rw [Checked.value?_map, h.reject hp hgiven]; rfl

theorem seq {f : Record → Checked (α → β)} {x : Record → Checked α} (hf : Reads fields f)
    (hx : Reads fields' x) : Reads (fields ++ fields') fun r => f r <*> x r where
  congr halike := by
    rw [Checked.value?_seq, Checked.value?_seq,
      hf.congr (halike.of_subset (List.subset_append_left fields fields')),
      hx.congr (halike.of_subset (List.subset_append_right fields fields'))]
  reject {r _ _} hp hgiven := by
    rw [Checked.value?_seq]
    rcases List.mem_append.mp hp with hp | hp
    · rw [hf.reject hp hgiven]
      rfl
    · rw [hx.reject hp hgiven]
      cases (f r).value? <;> rfl

/-- A field is read from what is given for it, and only if that can be read. -/
theorem ofGiven {read : Record → Checked α} (f : Bool → Option (Option p.Result) → Option α)
    (hread : ∀ r, (read r).value? = f r.length?.isSome (r.given name p.decode))
    (hreject : ∀ isArray, f isArray (some none) = none) : Reads [(name, p)] read where
  congr halike := by
    rw [hread, hread, halike.length?, halike.given (List.mem_singleton_self _)]
  reject hq hgiven := by
    obtain ⟨rfl, rfl⟩ := Prod.mk.injEq .. |>.mp (List.mem_singleton.mp hq)
    rw [hread, hgiven, hreject]

theorem required : Reads [(name, p)] fun r => r.required name fun v _ => p.decode v :=
  ofGiven name p (fun _ given => given.getD none)
    (fun r => r.value?_required name p.decode) fun _ => rfl

theorem defaulted (default : p.Result) :
    Reads [(name, p)] fun r => r.defaulted name default fun v _ => p.decode v :=
  ofGiven name p (fun _ given => given.getD (some default))
    (fun r => r.value?_defaulted name p.decode default) fun _ => rfl

theorem optional : Reads [(name, p)] fun r => r.optional name fun v _ => p.decode v :=
  ofGiven name p
    (fun isArray given =>
      if isArray then (given.getD none).map some
      else (given.map (Option.map some)).getD (some none))
    (fun r => r.value?_optional name p.decode) fun isArray => by cases isArray <;> rfl

theorem noExtras : Reads [] fun r => r.noExtras where
  congr {r r'} halike := by
    unfold Record.noExtras
    rw [halike.shape, halike.length?]
  reject h := nomatch h

theorem seqLeft {x : Record → Checked α} {y : Record → Checked β} (hx : Reads fields x)
    (hy : Reads [] y) : Reads fields fun r => x r <* y r where
  congr halike := by
    rw [Checked.value?_seqLeft, Checked.value?_seqLeft, hx.congr halike,
      hy.congr (halike.of_subset (List.nil_subset fields))]
  reject hp hgiven := by
    rw [Checked.value?_seqLeft, hx.reject hp hgiven]
    rfl

end Reads

end Reads

/-! ## Records -/

/-- Values are read as records of a shape: the fields decide what is read, and each of them has to
be what its part says. -/
structure ReadsRecord {α : Type} (shape : Shape) (fields : List (String × Part))
    (read : Value → Option α) : Prop where
  names : fields.map (·.1) = shape.fields
  nodup : shape.fields.Nodup
  congr : ∀ {v w r r'}, Record.ofValue? shape v = some r → Record.ofValue? shape w = some r' →
    r.Alike fields r' → read v = read w
  reject : ∀ {v r name p}, Record.ofValue? shape v = some r → (name, p) ∈ fields →
    r.given name p.decode = some none → read v = none

section Records

variable {α : Type} {shape : Shape} {fields : List (String × Part)} {read : Record → Checked α}
  {v : Value} {r : Record}

theorem toOption_decodeOpenRecord (h : Record.ofValue? shape v = some r) :
    (decodeOpenRecord shape v read).toOption = (read r).value? := by
  simp only [decodeOpenRecord, h]
  rfl

theorem toOption_decodeRecord (expected : String) (h : Record.ofValue? shape v = some r) :
    (decodeRecord shape expected v fun r _ => read r).toOption =
      (read r <* r.noExtras).value? := by
  unfold decodeRecord
  split
  case h_1 hnone => rw [h] at hnone; cases hnone
  case h_2 hsome =>
    obtain rfl := Option.some.inj (h.symm.trans hsome)
    rfl

theorem Reads.openRecord (h : Reads fields read) (names : fields.map (·.1) = shape.fields)
    (nodup : shape.fields.Nodup) :
    ReadsRecord shape fields fun v => (decodeOpenRecord shape v read).toOption where
  names := names
  nodup := nodup
  congr hv hw halike := by
    rw [toOption_decodeOpenRecord hv, toOption_decodeOpenRecord hw, h.congr halike]
  reject hv hp hgiven := by rw [toOption_decodeOpenRecord hv, h.reject hp hgiven]

theorem Reads.record (h : Reads fields read) (expected : String)
    (names : fields.map (·.1) = shape.fields) (nodup : shape.fields.Nodup) :
    ReadsRecord shape fields fun v =>
      (decodeRecord shape expected v fun r _ => read r).toOption where
  names := names
  nodup := nodup
  congr hv hw halike := by
    rw [toOption_decodeRecord expected hv, toOption_decodeRecord expected hw,
      (h.seqLeft .noExtras).congr halike]
  reject hv hp hgiven := by
    rw [toOption_decodeRecord expected hv, (h.seqLeft .noExtras).reject hp hgiven]

end Records

namespace ReadsRecord

variable {α : Type} {shape : Shape} {fields : List (String × Part)} {read : Value → Option α}
  {entries entries' : List (String × Value)} {isHeaded : Bool} {items items' : List Value}
  (h : ReadsRecord shape fields read)

include h

theorem table (hgiven : ∀ {name} {p : Part}, (name, p) ∈ fields →
      (entries.lookup name).map p.read = (entries'.lookup name).map p.read) :
    read (.table entries) = read (.table entries') :=
  h.congr rfl rfl ⟨rfl, rfl, hgiven⟩

theorem table_none {name : String} {p : Part} (hp : (name, p) ∈ fields)
    (hgiven : (entries.lookup name).map p.read = some none) : read (.table entries) = none :=
  h.reject rfl hp hgiven

theorem lookup_array {i : Nat} {name : String} {p : Part} (hp : fields[i]? = some (name, p)) :
    (shape.fields.zip items).lookup name = items[i]? := by
  refine lookup_zip h.nodup ?_
  rw [← h.names, List.getElem?_map, hp]
  rfl

theorem array (hlength : items.length = items'.length)
    (hgiven : ∀ {i : Nat} {name : String} {p : Part}, fields[i]? = some (name, p) →
      items[i]?.map p.read = items'[i]?.map p.read) :
    read (.array isHeaded items) = read (.array isHeaded items') := by
  refine h.congr rfl rfl ⟨rfl, congrArg some hlength, fun {name p} hp => ?_⟩
  obtain ⟨i, hi⟩ := List.mem_iff_getElem?.mp hp
  show ((shape.fields.zip items).lookup name).map p.read =
    ((shape.fields.zip items').lookup name).map p.read
  rw [h.lookup_array hi, h.lookup_array hi]
  exact hgiven hi

theorem array_none {i : Nat} {name : String} {p : Part} (hp : fields[i]? = some (name, p))
    (hgiven : items[i]?.map p.read = some none) : read (.array isHeaded items) = none := by
  refine h.reject rfl (List.mem_of_getElem? hp) ?_
  show ((shape.fields.zip items).lookup name).map p.read = some none
  rw [h.lookup_array hp]
  exact hgiven

end ReadsRecord

/-! ## The records of a script -/

theorem StmtKind.reads_decode (k : StmtKind) : Reads k.fields k.decode :=
  match k with
  | .expr => (Reads.required "expr" .expr).map Stmt.expr
  | .store =>
    (((Reads.required "cell" .string).map Stmt.store).seq (.required "value" .expr)).seq
      (.defaulted "init" .bool false)
  | .label => (Reads.required "name" .string).map Stmt.label
  | .jump =>
    (((Reads.required "target" .string).map Stmt.jump).seq
      (.defaulted "mode" .jumpMode .always)).seq (.optional "cond" .expr)
  | .stackEmpty => Reads.pure Stmt.stackEmpty
  | .clear => (Reads.required "cell" .string).map Stmt.clear
  | .clearAll => Reads.pure Stmt.clearAll

/-- What else belongs to a statement of a kind. -/
def StmtKind.read (k : StmtKind) (v : Value) : Option Stmt :=
  (decodeRecord k.shape k.shape.name v fun r _ => k.decode r).toOption

theorem StmtKind.readsRecord (k : StmtKind) : ReadsRecord k.shape k.fields k.read :=
  k.reads_decode.record k.shape.name (by cases k <;> rfl) (by cases k <;> decide)

/-- The parts that ignore foreign keys are records, with statements once their kind is known. -/
theorem Part.exists_readsRecord {p : Part} (hopen : p.isOpen = true) (hstmt : p ≠ .stmt) :
    ∃ shape, ∀ kind, ReadsRecord shape (p.fields kind) p.read := by
  cases p with
  | script =>
      have h := (((Reads.required "procedure" .header).map Script.mk).seq
        (.defaulted "cells" (.list .cell) [])).seq (.defaulted "body" (.list .stmt) [])
      exact ⟨_, fun _ => h.openRecord rfl (by decide)⟩
  | header =>
      have h := ((((Reads.optional "name" .string).map Header.mk).seq
        (.defaulted "id" .uint32 (0 : UInt32))).seq (.optional "parent" .uint32)).seq
        (.defaulted "root" .bool false)
      exact ⟨_, fun _ => h.openRecord rfl (by decide)⟩
  | cell =>
      have h := ((((((Reads.required "name" .string).map CellSpec.mk).seq
        (.required "class" .storage)).seq (.optional "decl" .uint32)).seq
        (.defaulted "ref_counted" .bool false)).seq (.defaulted "captured" .bool false)).seq
        (.defaulted "written" .bool false)
      exact ⟨_, fun _ => h.openRecord rfl (by decide)⟩
  | pointer =>
      have h := ((Reads.required "label" .string).map Expr.pointer).seq
        (.defaulted "info" .string "")
      exact ⟨_, fun _ => h.record "struct variant" rfl (by decide)⟩
  | call =>
      have h := ((((Reads.required "name" .string).map Expr.call).seq
        (.defaulted "mask" .mask (0 : BitVec 32))).seq (.defaulted "is_async" .bool false)).seq
        (.defaulted "args" (.list .expr) [])
      exact ⟨_, fun _ => h.record callShape.name rfl (by decide)⟩
  | procCall =>
      have h := (((Reads.required "callee" .uint32).map Expr.procCall).seq
        (.defaulted "is_async" .bool false)).seq (.defaulted "args" (.list .expr) [])
      exact ⟨_, fun _ => h.record "struct variant" rfl (by decide)⟩
  | field =>
      have h := ((Reads.required "of" .expr).map Expr.field).seq (.required "index" .nat)
      exact ⟨_, fun _ => h.record "struct variant" rfl (by decide)⟩
  | stmt => exact absurd rfl hstmt
  | _ => cases hopen

/-! ## Statements -/

section Statements

variable {kind : Option Value} {k : StmtKind}

/-- The kind of a statement, given the value that tells it. -/
def stmtKind? (kind : Option Value) : Option StmtKind :=
  kind.bind Part.stmtKind.read

theorem stmtKind?_congr {kind' : Option Value}
    (h : kind.map Part.stmtKind.read = kind'.map Part.stmtKind.read) :
    stmtKind? kind = stmtKind? kind' := by
  rcases kind with _ | v <;> rcases kind' with _ | w
  · rfl
  · cases h
  · cases h
  · exact Option.some.inj h

theorem stmtKind?_eq_none (h : kind.map Part.stmtKind.read = some none) :
    stmtKind? kind = none := by
  obtain ⟨v, rfl, hv⟩ := Option.map_eq_some_iff.mp h
  exact hv

theorem fields_stmt_of_none (h : stmtKind? kind = none) :
    Part.stmt.fields kind = [(kindField, .stmtKind)] := by
  show (kindField, Part.stmtKind) :: (stmtKind? kind).elim [] StmtKind.fields = _
  rw [h]
  rfl

theorem fields_stmt_of_some (h : stmtKind? kind = some k) :
    Part.stmt.fields kind = (kindField, .stmtKind) :: k.fields := by
  show (kindField, Part.stmtKind) :: (stmtKind? kind).elim [] StmtKind.fields = _
  rw [h]
  rfl

theorem read_stmt_table (entries : List (String × Value)) :
    Part.stmt.read (.table entries) = (stmtKind? (entries.lookup kindField)).bind fun k =>
      k.read (.table (entries.filter (·.1 ≠ kindField))) := by
  show (decodeStmt (.table entries)).toOption = _
  rw [decodeStmt]
  cases entries.lookup kindField with
  | none => rfl
  | some kind => exact toOption_bind ..

theorem read_stmt_array (isHeaded : Bool) (kind : Value) (items : List Value) :
    Part.stmt.read (.array isHeaded (kind :: items)) =
      (stmtKind? (some kind)).bind fun k => k.read (.array isHeaded items) :=
  toOption_bind ..

theorem StmtKind.not_mem_fields (k : StmtKind) : kindField ∉ k.fields.map (·.1) := by
  cases k <;> decide

theorem StmtKind.lookup_filter {entries : List (String × Value)} {name : String} {p : Part}
    (h : (name, p) ∈ k.fields) :
    (entries.filter (·.1 ≠ kindField)).lookup name = entries.lookup name := by
  refine lookup_filter_ne fun heq => k.not_mem_fields ?_
  exact List.mem_map.mpr ⟨_, h, heq⟩

end Statements

/-! ## Open parts -/

/-- A part is read by its fields alone, each of which has to be what its own part says. -/
structure Part.ByFields (p : Part) : Prop where
  nodup : ∀ kind, ((p.fields kind).map (·.1)).Nodup
  table : ∀ {entries entries' : List (String × Value)},
    (∀ {name} {q : Part}, (name, q) ∈ p.fields (entries.lookup kindField) →
      (entries.lookup name).map q.read = (entries'.lookup name).map q.read) →
    p.read (.table entries) = p.read (.table entries')
  table_none : ∀ {entries : List (String × Value)} {name} {q : Part},
    (name, q) ∈ p.fields (entries.lookup kindField) →
    (entries.lookup name).map q.read = some none → p.read (.table entries) = none
  array : ∀ {isHeaded : Bool} {items items' : List Value}, items.length = items'.length →
    (∀ {i : Nat} {name : String} {q : Part}, (p.fields items.head?)[i]? = some (name, q) →
      items[i]?.map q.read = items'[i]?.map q.read) →
    p.read (.array isHeaded items) = p.read (.array isHeaded items')
  array_none : ∀ {isHeaded : Bool} {items : List Value} {i : Nat} {name : String} {q : Part},
    (p.fields items.head?)[i]? = some (name, q) →
    items[i]?.map q.read = some none → p.read (.array isHeaded items) = none

theorem ReadsRecord.byFields {p : Part} {shape : Shape}
    (h : ∀ kind, ReadsRecord shape (p.fields kind) p.read) : p.ByFields where
  nodup kind := (h kind).names ▸ (h kind).nodup
  table := (h _).table
  table_none := (h _).table_none
  array := (h _).array
  array_none := (h _).array_none

theorem Part.byFields_stmt : Part.stmt.ByFields where
  nodup kind := by
    cases hk : stmtKind? kind with
    | none => rw [fields_stmt_of_none hk]; decide
    | some k =>
        rw [fields_stmt_of_some hk]
        exact List.nodup_cons.mpr ⟨k.not_mem_fields, k.readsRecord.names ▸ k.readsRecord.nodup⟩
  table {entries entries'} hgiven := by
    have hkind := stmtKind?_congr (hgiven List.mem_cons_self)
    rw [read_stmt_table, read_stmt_table, ← hkind]
    cases hk : stmtKind? (entries.lookup kindField) with
    | none => rfl
    | some k =>
        refine k.readsRecord.table fun hp => ?_
        rw [StmtKind.lookup_filter hp, StmtKind.lookup_filter hp]
        exact hgiven (fields_stmt_of_some hk ▸ List.mem_cons_of_mem _ hp)
  table_none {entries name q} hq hgiven := by
    rw [read_stmt_table]
    cases hk : stmtKind? (entries.lookup kindField) with
    | none => rfl
    | some k =>
        rw [fields_stmt_of_some hk] at hq
        rcases List.mem_cons.mp hq with heq | hq
        · obtain ⟨rfl, rfl⟩ := Prod.mk.injEq .. |>.mp heq
          cases hk.symm.trans (stmtKind?_eq_none hgiven)
        · exact k.readsRecord.table_none hq (by rwa [StmtKind.lookup_filter hq])
  array {isHeaded items items'} hlength hgiven := by
    match items, items', hlength with
    | [], [], _ => rfl
    | v :: items, w :: items', hlength =>
        have hkind : stmtKind? (some v) = stmtKind? (some w) :=
          stmtKind?_congr (hgiven (i := 0) rfl)
        rw [read_stmt_array, read_stmt_array, ← hkind]
        cases hk : stmtKind? (some v) with
        | none => rfl
        | some k =>
            refine k.readsRecord.array (Nat.succ.inj hlength) fun {i _ _} hp => ?_
            have hfield := congrArg (·[i + 1]?) (fields_stmt_of_some hk)
            exact hgiven (i := i + 1) (hfield.trans hp)
  array_none {isHeaded items i name q} hq hgiven := by
    match items with
    | [] => rfl
    | v :: items =>
        rw [read_stmt_array]
        cases hk : stmtKind? (some v) with
        | none => rfl
        | some k =>
            rw [List.head?_cons, fields_stmt_of_some hk] at hq
            cases i with
            | zero =>
                obtain ⟨rfl, rfl⟩ := Prod.mk.injEq .. |>.mp (Option.some.inj hq)
                cases hk.symm.trans (stmtKind?_eq_none hgiven)
            | succ i => exact k.readsRecord.array_none hq hgiven

theorem Part.byFields {p : Part} (hopen : p.isOpen = true) : p.ByFields := by
  by_cases hstmt : p = .stmt
  · exact hstmt ▸ byFields_stmt
  · obtain ⟨shape, h⟩ := exists_readsRecord hopen hstmt
    exact ReadsRecord.byFields h

end StackIR.Script
