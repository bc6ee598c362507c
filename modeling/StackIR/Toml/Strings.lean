import StackIR.Toml.Reader

/-!
# TOML strings and keys

Strings stand between single or double quotes, three of either for several lines. Only those in
double quotes know escapes. Line ends are single line feeds here.
-/

namespace StackIR.Toml

open Reader

/-- The characters of a line: tabs, and everything but the controls of ASCII. -/
def isLineChar (c : Char) : Bool :=
  c = '\t' || (0x20 ≤ c.toNat && c.toNat ≠ 0x7F)

def isBlank (c : Char) : Bool :=
  c = ' ' || c = '\t'

/-! ## Escapes -/

def hexDigit? (c : Char) : Option Nat :=
  if c.isDigit then some (c.toNat - '0'.toNat)
  else if 'a' ≤ c && c ≤ 'f' then some (c.toNat - 'a'.toNat + 10)
  else if 'A' ≤ c && c ≤ 'F' then some (c.toNat - 'A'.toNat + 10)
  else none

def hexNumber? (cs : List Char) : Option Nat :=
  cs.foldlM (fun n c => (hexDigit? c).map (16 * n + ·)) 0

/-- The character with a code point of `n` hexadecimal digits. Surrogates are no characters. -/
def codePoint (n : Nat) : Reader Char := do
  match hexNumber? (← take n) with
  | some n => if n.isValidChar then return Char.ofNat n else failure
  | none => failure

/-- The character that an escape stands for, after the backslash. -/
def escaped : Reader Char := do
  match ← any with
  | 'b' => return '\x08'
  | 't' => return '\t'
  | 'n' => return '\n'
  | 'f' => return '\x0c'
  | 'r' => return '\r'
  | '"' => return '"'
  | '\\' => return '\\'
  | 'u' => codePoint 4
  | 'U' => codePoint 8
  | _ => failure

/-- A backslash at the end of a line takes the line end with it and all blanks up to the next
text. -/
def continuedLine : Reader Unit := do
  let _ ← run isBlank
  char '\n'
  let _ ← run fun c => isBlank c || c = '\n'

/-! ## Strings -/

/-- A piece of a string on one line between quotes `q`. -/
def linePiece (q : Char) (c : Char) : Reader Piece :=
  if c = q then return .last []
  else if c = '\\' && q = '"' then return .more [← escaped]
  else if isLineChar c then return .more [c]
  else failure

/-- A piece of a string on several lines between triple quotes `q`. One or two quotes stand for
themselves, also right before the closing three. -/
def blockPiece (q : Char) (c : Char) : Reader Piece :=
  if c = q then do
    let quotes := c :: (← run (· = q))
    if quotes.length < 3 then return .more quotes
    else if quotes.length ≤ 5 then return .last (quotes.drop 3)
    else failure
  else if c = '\\' && q = '"' then
    (do continuedLine; return .more []) <|> (do return .more [← escaped])
  else if isLineChar c || c = '\n' then return .more [c]
  else failure

/-- A string on one line, after its opening quote. -/
def lineString (q : Char) : Reader String :=
  String.ofList <$> pieces (linePiece q)

/-- A string on several lines, after its opening quotes. A line end right after them is not part
of it. -/
def blockString (q : Char) : Reader String := do
  let _ ← optional (char '\n')
  String.ofList <$> pieces (blockPiece q)

/-- A string of any kind between quotes `q`. -/
def quotedString (q : Char) : Reader String :=
  (do char q; char q; char q; blockString q) <|> (do char q; lineString q)

/-! ## Keys -/

/-- The characters of a key without quotes. -/
def isBareKeyChar (c : Char) : Bool :=
  c.isAlphanum || c = '_' || c = '-'

def simpleKey : Reader String := do
  match ← peek with
  | some '"' => char '"'; lineString '"'
  | some '\'' => char '\''; lineString '\''
  | _ =>
    let cs ← run isBareKeyChar
    guard !cs.isEmpty
    return String.ofList cs

/-- The number of parts from which on a key is too long. -/
def maxKeyParts : Nat := 80

/-- A key: the tables that lead to an entry, and the entry's name in the last of them. -/
structure Key where
  parents : List String
  name : String
deriving Repr, DecidableEq

/-- A key of one or more parts with dots between them. -/
def dottedKey : Reader Key := do
  let parts ← separated '.' do
    let _ ← run isBlank
    let part ← simpleKey
    let _ ← run isBlank
    return part
  guard (parts.length < maxKeyParts)
  match parts.getLast? with
  | some name => return { parents := parts.dropLast, name }
  | none => failure

end StackIR.Toml
