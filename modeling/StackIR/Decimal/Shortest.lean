/-!
# Shortest decimals

The decimal a float is written with has the fewest digits that read back as the same float, and
among those it is the nearest to the float's value. It is found in exact arithmetic: on the
coarsest grid of multiples of a power of ten that has a point close enough, that point is one of
the value's two neighbours on the grid.
-/

namespace StackIR

/-- A decimal number, `digits * 10 ^ exponent`. -/
structure Decimal where
  digits : Nat
  exponent : Int
deriving Repr, DecidableEq

namespace Decimal

/-- The real numbers that read back as one positive float, in units of `2 ^ exponent`: they lie
around `value` from `low` to `high`, and the ends belong to them if `isClosed`. -/
structure Neighbourhood where
  low : Nat
  value : Nat
  high : Nat
  exponent : Int
  isClosed : Bool
deriving Repr, DecidableEq

namespace Neighbourhood

/-- The neighbourhood of the positive float with the given exponent and fraction bits. At a power
of two the float below is only half as far away as the one above. -/
def ofFields (exponentBits fraction : Nat) : Neighbourhood :=
  let mantissa := if exponentBits = 0 then fraction else fraction + Nat.pow 2 52
  let exponent : Int := if exponentBits = 0 then -1074 else exponentBits - 1075
  let below := if fraction = 0 && 1 < exponentBits then 1 else 2
  { low := 4 * mantissa - below
    value := 4 * mantissa
    high := 4 * mantissa + 2
    exponent := exponent - 2
    isClosed := mantissa % 2 = 0 }

/-- What a unit of the neighbourhood counts for in the comparison with multiples of `10 ^ k`. -/
def unit (n : Neighbourhood) (k : Int) : Nat :=
  Nat.pow 2 n.exponent.toNat * Nat.pow 10 (-k).toNat

/-- What a multiple of `10 ^ k` counts for in the comparison with units of the neighbourhood. -/
def step (n : Neighbourhood) (k : Int) : Nat :=
  Nat.pow 10 k.toNat * Nat.pow 2 (-n.exponent).toNat

/-- Whether `digits * 10 ^ k` lies in the neighbourhood. -/
def contains (n : Neighbourhood) (digits : Nat) (k : Int) : Bool :=
  let low := n.low * n.unit k
  let high := n.high * n.unit k
  let point := digits * n.step k
  if n.isClosed then low ≤ point && point ≤ high else low < point && point < high

/-- The neighbour of the value on the grid of multiples of `10 ^ k` that lies in the neighbourhood,
if one does. Of two it is the nearer, and the upper where both are as near. -/
def pointOnGrid? (n : Neighbourhood) (k : Int) : Option Nat :=
  let floor := n.value * n.unit k / n.step k
  let isNearerBelow := 2 * (n.value * n.unit k) < (2 * floor + 1) * n.step k
  match n.contains floor k, n.contains (floor + 1) k with
  | true, true => some (if isNearerBelow then floor else floor + 1)
  | true, false => some floor
  | false, true => some (floor + 1)
  | false, false => none

/-- The shortest decimal in the neighbourhood, looked for on ever finer grids from `10 ^ k` on. -/
def shortestFrom (n : Neighbourhood) (k : Int) : (tries : Nat) → Option Decimal
  | 0 => none
  | tries + 1 =>
    match n.pointOnGrid? k with
    | some digits => some ⟨digits, k⟩
    | none => n.shortestFrom (k - 1) tries

/-- The shortest decimal in the neighbourhood. All floats lie below `10 ^ 309` and are multiples
of `10 ^ (-1074)`. -/
def shortest? (n : Neighbourhood) : Option Decimal :=
  n.shortestFrom 309 1384

end Neighbourhood

/-- A decimal in positional notation, with at least one digit on each side of the point. -/
def text (d : Decimal) : String :=
  let digits := d.digits.repr.toList ++ List.replicate d.exponent.toNat '0'
  let places := (-d.exponent).toNat
  let padded := List.replicate (places + 1 - digits.length) '0' ++ digits
  let whole := padded.take (padded.length - places)
  let fraction := padded.drop (padded.length - places)
  String.ofList (whole ++ '.' :: if fraction.isEmpty then ['0'] else fraction)

/-- The text of a float: its shortest decimal, or the name of a value that has none. -/
def floatText (x : Float) : String :=
  let bits := x.toBits.toNat
  let sign := if bits < Nat.pow 2 63 then "" else "-"
  let exponentBits := bits / Nat.pow 2 52 % Nat.pow 2 11
  let fraction := bits % Nat.pow 2 52
  if exponentBits = Nat.pow 2 11 - 1 then
    if fraction = 0 then sign ++ "inf" else "NaN"
  else if exponentBits = 0 && fraction = 0 then sign ++ "0.0"
  else
    match (Neighbourhood.ofFields exponentBits fraction).shortest? with
    | some d => sign ++ d.text
    | none => ""

end Decimal

end StackIR
