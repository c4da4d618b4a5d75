import SqlResolution.Binary.Layout

/-!
# The shortest decimal that reads back

Of the decimals that round to a binary number, the one with the fewest digits; among those the
nearest, and of two equally near the greater. The search goes from coarse decimal grids to fine
ones and tests the number's two neighbours on each.
-/
namespace SqlResolution.Decimal

open Binary

-- Powers are the core ones, also where another instance is in scope.
attribute [local instance (high)] instPowNat

/-- The number `digits * 10 ^ exponent`. -/
structure Scaled where
  digits : Nat
  exponent : Int
  deriving DecidableEq, Repr

/-- Ten to an integer power, as numerator and denominator. -/
def powTen (e : Int) : Nat × Nat :=
  if 0 ≤ e then (10 ^ e.toNat, 1) else (1, 10 ^ (-e).toNat)

/-- The reals that round to `m * 2 ^ q`, with ends in units of `2 ^ (q - 2)`. The ends belong to
it when `m` is even. The gap below a power of two is half as wide, save at the bottom of the range. -/
structure Neighbourhood where
  low : Nat
  value : Nat
  high : Nat
  closed : Bool
  unit : Int

def neighbourhood (l : Layout) (m : Nat) (q : Int) : Neighbourhood where
  low := if m == 2 ^ l.fractionBits && l.leastExponent < q then 4 * m - 1 else 4 * m - 2
  value := 4 * m
  high := 4 * m + 2
  closed := m % 2 == 0
  unit := q - 2

/-- The multiple of `10 ^ e` next to the value that lies in the neighbourhood, if there is one. -/
def Neighbourhood.onGrid? (n : Neighbourhood) (e : Int) : Option Nat :=
  let (up, down) := powTwo n.unit
  let (coarse, fine) := powTen e
  let num := up * fine
  let den := down * coarse
  let inside (c : Nat) : Bool :=
    if n.closed then n.low * num ≤ c * den && c * den ≤ n.high * num
    else n.low * num < c * den && c * den < n.high * num
  let below := n.value * num / den
  let above := below + 1
  match 0 < below && inside below, inside above with
  | true, true => some (if 2 * (n.value * num - below * den) < den then below else above)
  | true, false => some below
  | false, true => some above
  | false, false => none

/-- Searches grids `10 ^ e`, `10 ^ (e - 1)`, … for the first hit. -/
def Neighbourhood.search (n : Neighbourhood) : Nat → Int → Scaled
  | 0, e => ⟨0, e⟩
  | fuel + 1, e =>
    match n.onGrid? e with
    | some c => ⟨c, e⟩
    | none => n.search fuel (e - 1)

/-- The shortest decimal of the positive number `m * 2 ^ q`. The first grid is one above its
leading digit, and twenty digits tell any two numbers of either width apart. -/
def shortest (l : Layout) (m : Nat) (q : Int) : Scaled :=
  let start : Int := (m.log2 + q + 1) * 30103 / 100000 + 1
  (neighbourhood l m q).search 21 start

/-- Digits with a point and as many zeros as it takes, never an exponent. -/
def Scaled.positional (s : Scaled) : String :=
  let ds := Nat.toDigits 10 s.digits
  if 0 ≤ s.exponent then String.ofList (ds ++ List.replicate s.exponent.toNat '0')
  else
    let places := (-s.exponent).toNat
    let padded := List.replicate (places + 1 - ds.length) '0' ++ ds
    let whole := padded.length - places
    String.ofList (padded.take whole ++ '.' :: padded.drop whole)

/-- The text of a floating-point number. -/
def text (l : Layout) : Reading → String
  | .nan => "NaN"
  | .infinite negative => if negative then "-inf" else "inf"
  | .finite negative m q =>
    (if negative then "-" else "") ++ (if m == 0 then "0" else (shortest l m q).positional)

end SqlResolution.Decimal
