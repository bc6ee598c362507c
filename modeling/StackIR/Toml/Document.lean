import StackIR.Toml.Draft
import StackIR.Toml.Word

/-!
# TOML documents

A document is a list of lines, each a header, an entry or nothing. The lines from one header to
the next are a section, and the sections together make the document's table (`parse?`).
-/

namespace StackIR.Toml

open Reader

/-! ## Values -/

def comment : Reader Unit := do
  let _ ← run isLineChar

/-- Blanks, line ends and comments, as they may stand between the items of an array. -/
def trivia : Reader Unit := do
  let blanks := run fun c => isBlank c || c = '\n'
  let _ ← blanks
  let _ ← afterEach '#' (comment *> blanks)

/-- The items of an array, given what stands before each comma and at the end: nothing may stand
at the end alone. -/
def arrayItems? : List (Option Value) → Option (List Value)
  | [] => some []
  | [v] => some v.toList
  | none :: _ => none
  | some v :: rest => (v :: ·) <$> arrayItems? rest

/-- An array, whose items `p` reads. -/
def array (p : Reader Value) : Reader Value := do
  char '['
  let slots ← separated ',' do
    trivia
    match ← peek with
    | some ',' | some ']' => return none
    | _ =>
      let v ← p
      trivia
      return some v
  char ']'
  match arrayItems? slots with
  | some items => return .array false items
  | none => failure

/-- A key with a value, which `p` reads. -/
def entry (p : Reader Value) : Reader (Key × Value) := do
  let key ← dottedKey
  char '='
  let _ ← run isBlank
  return (key, ← p)

/-- A table on one line, whose values `p` reads. -/
def inlineTable (p : Reader Value) : Reader Value := do
  char '\x7b'
  let _ ← run isBlank
  let entries ←
    if (← peek) = some '\x7d' then pure []
    else separated ',' (entry p <* run isBlank)
  char '\x7d'
  match Draft.opened.addEntries entries with
  | some t => return .table t.toEntries
  | none => failure

def scalar : Reader Value := do
  match ← peek with
  | some '"' => .string <$> quotedString '"'
  | some '\'' => .string <$> quotedString '\''
  | _ => word

/-- A value in which arrays and tables are nested at most `depth` deep. -/
def value : (depth : Nat) → Reader Value
  | 0 => scalar
  | depth + 1 => do
    match ← peek with
    | some '[' => array (value depth)
    | some '\x7b' => inlineTable (value depth)
    | _ => scalar

/-- How deep arrays and inline tables can be nested. -/
def maxDepth : Nat := 79

/-! ## Lines and sections -/

/-- A header opens a table, or adds an element to an array of tables. -/
structure Header where
  key : Key
  isElement : Bool
deriving Repr, DecidableEq

/-- A line that is not empty. -/
inductive Line where
  | header (header : Header)
  | entry (entry : Key × Value)

def header : Reader Header := do
  char '['
  let isElement ← (do char '['; return true) <|> return false
  let key ← dottedKey
  char ']'
  if isElement then char ']'
  return { key, isElement }

def line : Reader (Option Line) := do
  let _ ← run isBlank
  let content ←
    match ← peek with
    | none | some '\n' | some '#' => pure none
    | some '[' => (some ∘ Line.header) <$> header
    | some _ => (some ∘ Line.entry) <$> entry (value maxDepth)
  let _ ← run isBlank
  if (← peek) = some '#' then comment
  return content

/-- A header and the entries up to the next header. -/
structure Section where
  header : Header
  entries : List (Key × Value)

/-- The entries before the first header, and the sections. -/
def sections (lines : List Line) : List (Key × Value) × List Section :=
  lines.foldr
    (fun line (entries, rest) =>
      match line with
      | .entry e => (e :: entries, rest)
      | .header header => ([], ⟨header, entries⟩ :: rest))
    ([], [])

/-- Adds a section to the document's table. -/
def Draft.addSection (root : Draft) (s : Section) : Option Draft :=
  if s.header.isElement then root.addElement s.header.key s.entries
  else root.addTable s.header.key s.entries

/-! ## Documents -/

def lines : Reader (List Line) := do
  let lines ← separated '\n' line
  atEnd
  return lines.filterMap id

/-- A text without the mark that may stand at the front of a file. -/
def dropByteOrderMark : List Char → List Char
  | '\uFEFF' :: cs => cs
  | cs => cs

/-- The entries of the table that a document describes, if the text is one. -/
def parse? (text : String) : Option (List (String × Value)) := do
  let (lines, _) ← lines (dropByteOrderMark text.crlfToLf.toList)
  let (entries, sections) := sections lines
  let root ← Draft.opened.addEntries entries
  let root ← sections.foldlM Draft.addSection root
  return root.toEntries

end StackIR.Toml
