/-!
# Hexadecimal digits

Writing a number in a fixed or the least number of small hexadecimal digits, or in at least so
many, and reading digits of either case.
-/
namespace SqlResolution.Text

def hexDigit (n : Nat) : Char := Nat.digitChar (n % 16)

/-- The low `width` hexadecimal digits, most significant first. -/
def hexFixed : Nat → Nat → List Char
  | 0, _ => []
  | width + 1, n => hexFixed width (n / 16) ++ [hexDigit n]

/-- As few hexadecimal digits as the number needs, at least one. -/
def hexLeast (n : Nat) : List Char := Nat.toDigits 16 n

/-- As few hexadecimal digits as the number needs, filled up to a width with zeros in front. -/
def hexPadded (width n : Nat) : List Char := (hexLeast n).leftpad width '0'

/-- The number a hexadecimal digit stands for. -/
def hexValue? (c : Char) : Option Nat :=
  if c.isDigit then some (c.toNat - '0'.toNat)
  else if 'a' ≤ c && c ≤ 'f' then some (c.toNat - 'a'.toNat + 10)
  else if 'A' ≤ c && c ≤ 'F' then some (c.toNat - 'A'.toNat + 10)
  else none

def isHexDigit (c : Char) : Bool := (hexValue? c).isSome

/-- The number that hexadecimal digits of either case stand for; no digits stand for zero. -/
def readHex? (cs : List Char) : Option Nat :=
  cs.foldlM (fun n c => (hexValue? c).map (n * 16 + ·)) 0

@[simp] theorem length_hexFixed (width n : Nat) : (hexFixed width n).length = width := by
  induction width generalizing n with
  | zero => rfl
  | succ width ih => simp [hexFixed, ih]

end SqlResolution.Text
