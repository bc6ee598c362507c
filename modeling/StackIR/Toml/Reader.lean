/-!
# Readers

A reader takes a value off the front of a text or refuses the text. Its type says that what is
left is no longer than the text it was given, so a repetition that takes a character each time
around comes to an end (`afterEach`, `pieces`).
-/

namespace StackIR.Toml

/-- What a reader leaves of a text. -/
abbrev Rest (s : List Char) := { r : List Char // r.length ≤ s.length }

/-- Takes a value off the front of a text, or refuses the text. -/
def Reader (α : Type) := (s : List Char) → Option (α × Rest s)

namespace Reader

protected def pure (a : α) : Reader α := fun s => some (a, ⟨s, Nat.le_refl _⟩)

/-- Reads with `p` and then, knowing what it read, with `f`. -/
protected def bind (p : Reader α) (f : α → Reader β) : Reader β := fun s =>
  match p s with
  | none => none
  | some (a, r) =>
    match f a r.val with
    | none => none
    | some (b, t) => some (b, ⟨t.val, Nat.le_trans t.property r.property⟩)

instance : Monad Reader where
  pure := Reader.pure
  bind := Reader.bind

/-- Reads with `q` what `p` refuses. -/
protected def orElse (p : Reader α) (q : Unit → Reader α) : Reader α := fun s =>
  match p s with
  | none => q () s
  | some a => some a

instance : Alternative Reader where
  failure := fun _ => none
  orElse := Reader.orElse

/-! ## Characters -/

/-- The next character, which is left in place. -/
def peek : Reader (Option Char) := fun s => some (s.head?, ⟨s, Nat.le_refl _⟩)

def any : Reader Char
  | [] => none
  | c :: r => some (c, ⟨r, Nat.le_succ _⟩)

def char (c : Char) : Reader Unit := do
  guard ((← any) = c)

/-- Takes the longest run of characters of a class. -/
def run (p : Char → Bool) : Reader (List Char) := fun s =>
  some (s.takeWhile p, ⟨s.dropWhile p, (List.dropWhile_sublist p).length_le⟩)

def take : (n : Nat) → Reader (List Char)
  | 0 => pure []
  | n + 1 => do
    let c ← any
    return c :: (← take n)

/-- Accepts the end of the text alone. -/
def atEnd : Reader Unit := do
  guard ((← peek).isNone)

/-! ## Repetition -/

/-- The values of a repetition, in reverse, and what is left of `n` characters. -/
def afterEachFrom (c : Char) (p : Reader α) {n : Nat} (acc : List α) (s : List Char)
    (h : s.length ≤ n) : Option (List α × { r : List Char // r.length ≤ n }) :=
  match s with
  | [] => some (acc.reverse, ⟨[], h⟩)
  | x :: xs =>
    if x = c then
      match p xs with
      | none => none
      | some (a, r) => afterEachFrom c p (a :: acc) r.val
        (Nat.le_trans r.property (Nat.le_of_succ_le h))
    else some (acc.reverse, ⟨x :: xs, h⟩)
termination_by s.length
decreasing_by exact Nat.lt_succ_of_le r.property

/-- As long as the next character is `c`, takes it and reads a value. -/
def afterEach (c : Char) (p : Reader α) : Reader (List α) := fun s =>
  afterEachFrom c p [] s (Nat.le_refl _)

/-- One or more values with `c` between them. -/
def separated (c : Char) (p : Reader α) : Reader (List α) := do
  let a ← p
  return a :: (← afterEach c p)

/-- A piece of a longer text, which may be its last. -/
inductive Piece where
  | more (cs : List Char)
  | last (cs : List Char)

/-- The characters of the pieces, in reverse, and what is left of `n` characters. -/
def piecesFrom (p : Char → Reader Piece) {n : Nat} (acc : List Char) (s : List Char)
    (h : s.length ≤ n) : Option (List Char × { r : List Char // r.length ≤ n }) :=
  match s with
  | [] => none
  | x :: xs =>
    match p x xs with
    | none => none
    | some (.last cs, r) => some ((cs.reverse ++ acc).reverse,
        ⟨r.val, Nat.le_trans r.property (Nat.le_of_succ_le h)⟩)
    | some (.more cs, r) => piecesFrom p (cs.reverse ++ acc) r.val
        (Nat.le_trans r.property (Nat.le_of_succ_le h))
termination_by s.length
decreasing_by exact Nat.lt_succ_of_le r.property

/-- A text made of pieces, up to the last. Each piece takes at least the character it starts
with. -/
def pieces (p : Char → Reader Piece) : Reader (List Char) := fun s =>
  piecesFrom p [] s (Nat.le_refl _)

end Reader

end StackIR.Toml
