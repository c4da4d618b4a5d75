import SqlResolution.Binary.Layout

/-!
# A fixed number of decimal places

The exact value of a binary number rounded to a number of places, a half to the even neighbour.
-/
namespace SqlResolution.Decimal

open Binary

-- Powers are the core ones, also where another instance is in scope.
attribute [local instance (high)] instPowNat

/-- A natural number written with a point before its last `places` digits. -/
def withPoint (places n : Nat) : List Char :=
  let ds := Nat.toDigits 10 n
  let padded := List.replicate (places + 1 - ds.length) '0' ++ ds
  let whole := padded.length - places
  if places == 0 then padded else padded.take whole ++ '.' :: padded.drop whole

/-- The number `m * 2 ^ q` in units of the last place. -/
def units (places m : Nat) (q : Int) : Nat :=
  let (up, down) := powTwo q
  divNearest (m * up * 10 ^ places) down

/-- The digits of a finite number with the given places; a negative sign stays on a zero. -/
def fixed (places : Nat) (negative : Bool) (m : Nat) (q : Int) : List Char :=
  (if negative then ['-'] else []) ++ withPoint places (units places m q)

end SqlResolution.Decimal
