/-!
# Binary floating-point layouts

A finite word of a layout is exactly `± m * 2 ^ q`. `decode` reads the fields of a word, and
`nearest` is the word nearest to a quotient of natural numbers, with a half going to the even
neighbour. Conversions between widths and from integers go through these two.
-/
namespace SqlResolution.Binary

-- Powers are the core ones, also where another instance is in scope.
attribute [local instance (high)] instPowNat

/-- Widths of the fraction and exponent fields of a format. -/
structure Layout where
  fractionBits : Nat
  exponentBits : Nat
  deriving DecidableEq, Repr

def double : Layout := ⟨52, 11⟩

def single : Layout := ⟨23, 8⟩

/-- What a word denotes. -/
inductive Reading where
  | nan
  | infinite (negative : Bool)
  /-- The number `m * 2 ^ q` with its sign. -/
  | finite (negative : Bool) (m : Nat) (q : Int)
  deriving DecidableEq, Repr

namespace Layout

/-- The exponent field of infinities and NaNs. -/
def specialExponent (l : Layout) : Nat := 2 ^ l.exponentBits - 1

/-- The exponent of the least positive number. -/
def leastExponent (l : Layout) : Int := 2 - 2 ^ (l.exponentBits - 1) - l.fractionBits

def decode (l : Layout) (word : Nat) : Reading :=
  let fraction := word % 2 ^ l.fractionBits
  let exponent := word / 2 ^ l.fractionBits % 2 ^ l.exponentBits
  let negative := word / 2 ^ (l.fractionBits + l.exponentBits) % 2 == 1
  if exponent == l.specialExponent then
    if fraction == 0 then .infinite negative else .nan
  else if exponent == 0 then .finite negative fraction l.leastExponent
  else .finite negative (2 ^ l.fractionBits + fraction) (l.leastExponent + (exponent - 1))

end Layout

/-- The quotient rounded to a natural number, a half to the even neighbour. -/
def divNearest (num den : Nat) : Nat :=
  let q := num / den
  let twice := 2 * (num % den)
  if twice < den then q else if den < twice then q + 1 else q + q % 2

/-- Two to an integer power, as numerator and denominator. -/
def powTwo (q : Int) : Nat × Nat :=
  if 0 ≤ q then (2 ^ q.toNat, 1) else (1, 2 ^ (-q).toNat)

/-- The greatest integer exponent `k` with `2 ^ k` at most `num / den`, for positive arguments. -/
def floorLog (num den : Nat) : Int :=
  let k : Int := num.log2 - den.log2
  let (up, down) := powTwo k
  if num * down < den * up then k - 1 else k

namespace Layout

/-- The word without sign that is nearest to `num / den`; a number past the greatest finite one
by half a unit or more goes to infinity. -/
def nearest (l : Layout) (num den : Nat) : Nat :=
  if num == 0 then 0
  else
    let q := max l.leastExponent (floorLog num den - l.fractionBits)
    let (up, down) := powTwo q
    let m := divNearest (num * down) (den * up)
    min ((q - l.leastExponent).toNat * 2 ^ l.fractionBits + m)
      (l.specialExponent * 2 ^ l.fractionBits)

/-- The word with the given sign bit. -/
def signed (l : Layout) (negative : Bool) (magnitude : Nat) : Nat :=
  if negative then 2 ^ (l.fractionBits + l.exponentBits) + magnitude else magnitude

def infinity (l : Layout) (negative : Bool) : Nat :=
  l.signed negative (l.specialExponent * 2 ^ l.fractionBits)

/-- A NaN without sign. -/
def nan (l : Layout) : Nat :=
  l.specialExponent * 2 ^ l.fractionBits + 2 ^ (l.fractionBits - 1)

/-- The word of this layout nearest to what a word of any layout denotes. -/
def encode (l : Layout) : Reading → Nat
  | .nan => l.nan
  | .infinite negative => l.infinity negative
  | .finite negative m q =>
    let (up, down) := powTwo q
    l.signed negative (l.nearest (m * up) down)

end Layout

/-- The integer part, rounding toward zero; none for infinities and NaN. -/
def Reading.truncate? : Reading → Option Int
  | .finite negative m q =>
    let (up, down) := powTwo q
    let t : Int := m * up / down
    some (if negative then -t else t)
  | _ => none

/-! ### Words of the two formats -/

def readDouble (x : Float) : Reading := double.decode x.toBits.toNat

def readSingle (x : Float32) : Reading := single.decode x.toBits.toNat

def toDouble (r : Reading) : Float := Float.ofBits (UInt64.ofNat (double.encode r))

def toSingle (r : Reading) : Float32 := Float32.ofBits (UInt32.ofNat (single.encode r))

/-- The double nearest to an integer. -/
def doubleOfInt (n : Int) : Float := toDouble (.finite (n < 0) n.natAbs 0)

/-- Every single is a double. -/
def widen (x : Float32) : Float := toDouble (readSingle x)

/-- The single nearest to a double. -/
def narrow (x : Float) : Float32 := toSingle (readDouble x)

theorem divNearest_mul (n : Nat) {d : Nat} (h : 0 < d) : divNearest (n * d) d = n := by
  simp [divNearest, Nat.mul_div_cancel _ h, h]

end SqlResolution.Binary
