import StackIR.Toml.Value
import StackIR.Toml.Strings

/-!
# TOML words

Numbers, truth values, dates and times are written as words: unbroken runs of letters, digits and
a few marks. What a word means is decided on the whole of it.
-/

namespace StackIR.Toml

open Reader

def isWordChar (c : Char) : Bool :=
  c.isAlphanum || c = '_' || c = '+' || c = '-' || c = '.' || c = ':'

/-! ## Numbers -/

/-- Digits with single underscores between them, which are left out. -/
def digits? (isDigit : Char → Bool) : List Char → Option (List Char)
  | [] => none
  | [c] => if isDigit c then some [c] else none
  | c :: '_' :: cs => if isDigit c then (c :: ·) <$> digits? isDigit cs else none
  | c :: cs => if isDigit c then (c :: ·) <$> digits? isDigit cs else none

/-- The number that digits write in a base. -/
def ofDigits (base : Nat) (cs : List Char) : Nat :=
  cs.foldl (fun n c => base * n + (hexDigit? c).getD 0) 0

/-- Decimal digits without a leading zero. -/
def decimalDigits? (cs : List Char) : Option (List Char) :=
  match digits? Char.isDigit cs with
  | some ('0' :: _ :: _) => none
  | ds => ds

/-- A sign, negative if set, and what follows it. -/
def splitSign : List Char → Bool × List Char
  | '-' :: cs => (true, cs)
  | '+' :: cs => (false, cs)
  | cs => (false, cs)

def signed (isNegative : Bool) (n : Nat) : Int :=
  if isNegative then -n else n

/-- The integer that a word writes. -/
def anyInteger? : List Char → Option Int
  | '0' :: 'x' :: cs => (digits? (fun c => (hexDigit? c).isSome) cs).map (ofDigits 16 ·)
  | '0' :: 'o' :: cs => (digits? (fun c => '0' ≤ c && c ≤ '7') cs).map (ofDigits 8 ·)
  | '0' :: 'b' :: cs => (digits? (fun c => c = '0' || c = '1') cs).map (ofDigits 2 ·)
  | cs =>
    let (isNegative, cs) := splitSign cs
    (decimalDigits? cs).map (signed isNegative <| ofDigits 10 ·)

/-- The integer that a word writes, of 64 bits with sign. -/
def integer? (cs : List Char) : Option Int :=
  (anyInteger? cs).filter fun n => -Int.pow 2 63 ≤ n && n < Int.pow 2 63

/-- The float nearest to `mantissa * 10 ^ exponent`. Beyond a few hundred places the size of the
exponent makes no difference. -/
def nearestFloat (mantissa : Nat) (exponent : Int) : Float :=
  if mantissa = 0 then 0
  else
    let places := (Nat.toDigits 10 mantissa).length + exponent
    if places > 400 then Float.ofScientific 1 false 400
    else if places < -400 then 0
    else Float.ofScientific mantissa (exponent < 0) exponent.natAbs

/-- The exponent of a float: a letter `e` before a number. Without one it is zero. -/
def exponent? : List Char → Option Int
  | [] => some 0
  | c :: cs =>
    if c = 'e' || c = 'E' then
      let (isNegative, cs) := splitSign cs
      (digits? Char.isDigit cs).map (signed isNegative <| ofDigits 10 ·)
    else none

def isDigitOrUnderscore (c : Char) : Bool :=
  c.isDigit || c = '_'

/-- The size of a float: digits, then a fraction or an exponent or both. -/
def unsignedFloat? (cs : List Char) : Option Float := do
  let whole ← decimalDigits? (cs.takeWhile isDigitOrUnderscore)
  match cs.dropWhile isDigitOrUnderscore with
  | [] => none
  | '.' :: cs =>
    let fraction ← digits? Char.isDigit (cs.takeWhile isDigitOrUnderscore)
    let exponent ← exponent? (cs.dropWhile isDigitOrUnderscore)
    return nearestFloat (ofDigits 10 (whole ++ fraction)) (exponent - fraction.length)
  | cs =>
    let exponent ← exponent? cs
    return nearestFloat (ofDigits 10 whole) exponent

/-- The float that a word writes. A number too large for one is refused, unless it is negative. -/
def float? (cs : List Char) : Option Float :=
  let (isNegative, size) := splitSign cs
  let withSign (x : Float) : Float := if isNegative then -x else x
  if size = ['i', 'n', 'f'] then some (withSign (1 / 0))
  else if size = ['n', 'a', 'n'] then some (0 / 0)
  else (withSign <$> unsignedFloat? size).filter (!· == 1 / 0)

/-! ## Dates and times -/

/-- The number that exactly the given digits write. -/
def fixedNumber? (cs : List Char) : Option Nat :=
  if cs.all Char.isDigit then some (ofDigits 10 cs) else none

def daysOfMonth (year month : Nat) : Nat :=
  if month = 2 then
    if year % 4 = 0 && (year % 100 ≠ 0 || year % 400 = 0) then 29 else 28
  else if month = 4 || month = 6 || month = 9 || month = 11 then 30
  else 31

/-- Whether a text is a date, `YYYY-MM-DD`. -/
def isDate : List Char → Bool
  | [y₁, y₂, y₃, y₄, '-', m₁, m₂, '-', d₁, d₂] =>
    match fixedNumber? [y₁, y₂, y₃, y₄], fixedNumber? [m₁, m₂], fixedNumber? [d₁, d₂] with
    | some year, some month, some day =>
      1 ≤ month && month ≤ 12 && 1 ≤ day && day ≤ daysOfMonth year month
    | _, _, _ => false
  | _ => false

/-- Whether two characters write a number of at most `last`. -/
def isBelow (last : Nat) (c d : Char) : Bool :=
  (fixedNumber? [c, d]).any (· ≤ last)

/-- What follows a time of day, `HH:MM:SS` with an optional fraction of a second. -/
def afterTime? : List Char → Option (List Char)
  | h₁ :: h₂ :: ':' :: m₁ :: m₂ :: ':' :: s₁ :: s₂ :: cs =>
    if isBelow 23 h₁ h₂ && isBelow 59 m₁ m₂ && isBelow 60 s₁ s₂ then
      match cs with
      | '.' :: c :: cs => if c.isDigit then some (cs.dropWhile Char.isDigit) else none
      | cs => some cs
    else none
  | _ => none

/-- Whether a text is the offset of a time zone, or no text. -/
def isOffset : List Char → Bool
  | [] | ['Z'] | ['z'] => true
  | [sign, h₁, h₂, ':', m₁, m₂] =>
    (sign = '+' || sign = '-') && isBelow 23 h₁ h₂ && isBelow 59 m₁ m₂
  | _ => false

/-- Whether a text is a time of day with an optional offset. -/
def isOffsetTime (cs : List Char) : Bool :=
  (afterTime? cs).any isOffset

/-- Whether a word is a date, a time of day, or a date with a time of day after a letter `T`. -/
def isDateTime (cs : List Char) : Bool :=
  isDate cs || afterTime? cs = some [] ||
    (isDate (cs.take 10) &&
      match cs.drop 10 with
      | c :: cs => (c = 'T' || c = 't') && isOffsetTime cs
      | [] => false)

/-! ## Words -/

def wordValue? (cs : List Char) : Option Value :=
  if cs = ['t', 'r', 'u', 'e'] then some (.boolean true)
  else if cs = ['f', 'a', 'l', 's', 'e'] then some (.boolean false)
  else if isDateTime cs then some .dateTime
  else (Value.integer <$> integer? cs) <|> (Value.float <$> float? cs)

/-- A time of day that belongs to the date before it, after a single blank. -/
def timeAfterDate : Reader Unit := do
  char ' '
  let cs ← run isWordChar
  guard (isOffsetTime cs)

/-- A word, and the time of day that belongs to it if it is a date. -/
def word : Reader Value := do
  let cs ← run isWordChar
  match wordValue? cs with
  | none => failure
  | some v =>
    if isDate cs then
      let _ ← optional timeAfterDate
    return v

end StackIR.Toml
