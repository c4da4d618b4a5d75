import SqlResolution.Binary.Layout
import SqlResolution.Decimal.Shortest
import SqlResolution.Text.Ascii
import SqlResolution.Text.Integer

/-!
# Reading floating-point text

An optional sign, then digits with at most one point and at least one digit, then an optional
exponent; or one of the words for infinity and NaN in any case. The result is the word nearest to
the number that the text denotes.
-/
namespace SqlResolution.Decimal

open Binary Text

/-- Digits before and after a point. Both may be missing, but not both at once. -/
def readPlain? (cs : List Char) : Option Scaled :=
  let whole := cs.takeWhile (· != '.')
  let fraction := (cs.dropWhile (· != '.')).drop 1
  if (whole ++ fraction).isEmpty || !(whole ++ fraction).all Char.isDigit then none
  else some ⟨digitsValue 0 (whole ++ fraction), -(fraction.length : Int)⟩

/-- A plain number with an optional decimal exponent. -/
def readScaled? (cs : List Char) : Option Scaled :=
  let isMark (c : Char) : Bool := c == 'e' || c == 'E'
  let plain := cs.takeWhile fun c => !isMark c
  match cs.dropWhile fun c => !isMark c with
  | [] => readPlain? plain
  | _ :: exponent => do
    let s ← readPlain? plain
    let e ← readInt? exponent
    return ⟨s.digits, s.exponent + e⟩

/-- The magnitude of the word nearest to a decimal. A number of more than 400 digits before the
point is past every layout's range, and one below `10 ^ -400` is nearest to zero. -/
def Scaled.nearest (l : Layout) (s : Scaled) : Nat :=
  let size : Int := (Nat.toDigits 10 s.digits).length + s.exponent
  if s.digits == 0 || size < -400 then 0
  else if 400 < size then l.infinity false
  else
    let (up, down) := powTen s.exponent
    l.nearest (s.digits * up) down

/-- The word without sign that an unsigned text denotes. -/
def readMagnitude? (l : Layout) (cs : List Char) : Option Nat :=
  let word := lowerAscii (String.ofList cs)
  if word == "inf" || word == "infinity" then some (l.infinity false)
  else if word == "nan" then some l.nan
  else (readScaled? cs).map (·.nearest l)

/-- The word that a text denotes. -/
def readWord? (l : Layout) : List Char → Option Nat
  | '-' :: cs => (readMagnitude? l cs).map (l.signed true)
  | '+' :: cs => readMagnitude? l cs
  | cs => readMagnitude? l cs

def readDouble? (cs : List Char) : Option Float :=
  (readWord? double cs).map fun w => Float.ofBits (UInt64.ofNat w)

def readSingle? (cs : List Char) : Option Float32 :=
  (readWord? single cs).map fun w => Float32.ofBits (UInt32.ofNat w)

end SqlResolution.Decimal
