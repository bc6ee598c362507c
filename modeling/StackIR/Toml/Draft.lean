import StackIR.Toml.Value
import StackIR.Toml.Strings

/-!
# Tables under construction

While a document is read, its tables can still grow, under rules that depend on how each of them
came to be: a table that only leads to others may be opened later by a header of its own, and one
that came from dotted keys may grow by dotted keys alone.
-/

namespace StackIR.Toml

mutual

/-- What a table under construction holds for a key. -/
inductive Item where
  | value (value : Value)
  | table (table : Draft)
  /-- An array of tables: its last element, which can grow, and the others, last first. -/
  | tables (last : Draft) (earlier : List Draft)

/-- A table under construction. It is implicit if no header opened it, and dotted if it came from
dotted keys. -/
inductive Draft where
  | mk (isImplicit isDotted : Bool) (entries : List (String × Item))

end

/-! ## Finished tables -/

mutual

def Item.toValue : Item → Value
  | .value v => v
  | .table (.mk _ _ entries) => .table (entriesToValues entries)
  | .tables (.mk _ _ entries) earlier =>
    .array true (tablesToValues earlier [.table (entriesToValues entries)])

/-- The entries a table has come to hold. -/
def entriesToValues : List (String × Item) → List (String × Value)
  | [] => []
  | (k, item) :: rest => (k, item.toValue) :: entriesToValues rest

/-- The elements of an array of tables, given last first, before those that are done. -/
def tablesToValues : List Draft → List Value → List Value
  | [], done => done
  | .mk _ _ entries :: earlier, done =>
    tablesToValues earlier (.table (entriesToValues entries) :: done)

end

namespace Draft

/-- A table opened by a header, without entries yet. -/
def opened : Draft := .mk false false []

def isImplicit : Draft → Bool
  | .mk isImplicit _ _ => isImplicit

def isDotted : Draft → Bool
  | .mk _ isDotted _ => isDotted

/-- The entries in the order of their keys' first appearance. -/
def entries : Draft → List (String × Item)
  | .mk _ _ entries => entries

def find? (t : Draft) (k : String) : Option Item :=
  t.entries.lookup k

/-- Adds an entry for a key that has none. -/
def append (t : Draft) (k : String) (item : Item) : Draft :=
  .mk t.isImplicit t.isDotted (t.entries ++ [(k, item)])

/-- Changes the entry of a key in its place. -/
def set (t : Draft) (k : String) (item : Item) : Draft :=
  .mk t.isImplicit t.isDotted (t.entries.map fun e => if e.1 = k then (k, item) else e)

/-- Moves the entry of a key to the end and changes it. -/
def moveToEnd (t : Draft) (k : String) (item : Item) : Draft :=
  .mk t.isImplicit t.isDotted (t.entries.filter (·.1 ≠ k) ++ [(k, item)])

/-- Changes the table at the end of a path. Tables missing on the way are made. A dotted path
passes only through tables that no header opened; any path goes on in the last table of an
array. -/
def update (dotted : Bool) : List String → (Draft → Option Draft) → Draft → Option Draft
  | [], f, t => f t
  | k :: ks, f, t =>
    match t.find? k with
    | none => do
      let sub ← update dotted ks f (.mk true dotted [])
      return t.append k (.table sub)
    | some (.table sub) =>
      if dotted && !sub.isImplicit then none
      else do
        let sub ← update dotted ks f sub
        return t.set k (.table sub)
    | some (.tables last earlier) => do
      let last ← update dotted ks f last
      return t.set k (.tables last earlier)
    | some (.value _) => none

/-- Adds the entry of a key and value. A key of several parts adds to a dotted table, and a key of
one part to a table that is not. -/
def addEntry (t : Draft) (e : Key × Value) : Option Draft :=
  t.update true e.1.parents fun sub =>
    if sub.isDotted = e.1.parents.isEmpty || (sub.find? e.1.name).isSome then none
    else some (sub.append e.1.name (.value e.2))

def addEntries (t : Draft) (es : List (Key × Value)) : Option Draft :=
  es.foldlM addEntry t

/-- Opens the table that a header names and adds its entries. The table must be new, or one that
only led to others so far; that one moves to the end of its parent. -/
def addTable (root : Draft) (k : Key) (es : List (Key × Value)) : Option Draft :=
  root.update false k.parents fun parent =>
    match parent.find? k.name with
    | none => (opened.addEntries es).map fun t => parent.append k.name (.table t)
    | some (.table (.mk true false entries)) =>
      (Draft.addEntries (.mk false false entries) es).map fun t =>
        parent.moveToEnd k.name (.table t)
    | some _ => none

/-- Adds an element with its entries to the array of tables that a header names. -/
def addElement (root : Draft) (k : Key) (es : List (Key × Value)) : Option Draft :=
  root.update false k.parents fun parent =>
    match parent.find? k.name with
    | none => (opened.addEntries es).map fun t => parent.append k.name (.tables t [])
    | some (.tables last earlier) =>
      (opened.addEntries es).map fun t => parent.set k.name (.tables t (last :: earlier))
    | some _ => none

def toEntries (t : Draft) : List (String × Value) :=
  entriesToValues t.entries

end Draft

end StackIR.Toml
