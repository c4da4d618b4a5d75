import SqlResolution.ColumnType.Basic
import SqlResolution.Text.Cut
import SqlResolution.Text.Integer

/-!
# Geohash text

A geohash is a number of bits, right aligned. Its text has a character of the base-32 alphabet for
every five bits, and a literal is such a text after `#`, or single bits after `##`.
-/
namespace SqlResolution.Geohash

-- Powers are the core ones, also where another instance is in scope.
attribute [local instance (high)] instPowNat

/-- The base-32 digits in the order of their values. -/
def alphabet : List Char := "0123456789bcdefghjkmnpqrstuvwxyz".toList

/-- The value of a digit of either case. -/
def digitValue? (c : Char) : Option Nat := alphabet.idxOf? c.toLower

/-- The number that base-32 digits stand for. -/
def readDigits? (cs : List Char) : Option Nat :=
  cs.foldlM (fun n c => (digitValue? c).map (n * 32 + ·)) 0

/-- The leading `bits` of a text. Characters past those that hold them are ignored. -/
def ofText? (text : List Char) (bits : Nat) : Option Int64 :=
  let size := (bits + 4) / 5
  if bits == 0 || maxGeohashBits < bits || text.length < size then none
  else (readDigits? (text.take size)).map fun n => Int64.ofNat (n / 2 ^ (size * 5 - bits))

/-- Drops low bits. The amount is a byte, and a word is shifted by it modulo its width. -/
def narrow (value : Int64) (source target : Nat) : Int64 :=
  let shift := (source + 256 - target) % 256 % 64
  Int64.ofInt (value.toInt.fdiv (2 ^ shift))

/-- The low `size` base-32 digits, most significant first. -/
def digits : Nat → Int → List Char
  | 0, _ => []
  | size + 1, n => digits size (n.fdiv 32) ++ [alphabet.getD (n.fmod 32).toNat '0']

/-- The text of a geohash whose bits make whole characters. -/
def text? (value : Int64) (bits : Nat) : Option String :=
  if bits == 0 || bits % 5 != 0 then none
  else some (String.ofList (digits (bits / 5) value.toInt))

/-- A geohash with its precision. -/
structure Literal where
  bits : Nat
  value : Int64
  deriving DecidableEq, Repr

/-- The number that binary digits stand for. -/
def readBits? (cs : List Char) : Option Nat :=
  if cs.all fun c => c == '0' || c == '1' then
    some (cs.foldl (fun n c => n * 2 + (if c == '1' then 1 else 0)) 0)
  else none

/-- Single bits, at most as many as a geohash has. -/
def ofBits? (cs : List Char) : Option Literal :=
  if cs.isEmpty || maxGeohashBits < cs.length then none
  else (readBits? cs).map fun n => ⟨cs.length, Int64.ofNat n⟩

/-- Base-32 digits, of which `bits` are kept where they are given. -/
def ofDigits? (cs : List Char) (bits : Option Nat) : Option Literal :=
  let size := Text.byteLength cs
  let bits := bits.getD (size * 5)
  if size == 0 || maxGeohashBits < size * 5 || bits == 0 || size * 5 < bits then none
  else (ofText? cs bits).map fun n => ⟨bits, n⟩

/-- Reads `##0101`, `#u33d` or `#u33d/18`. -/
def parseLiteral? : List Char → Option Literal
  | '#' :: '#' :: cs => ofBits? cs
  | '#' :: cs =>
    match Text.splitOnce? '/' cs with
    | some (cs, bits) => do ofDigits? cs (some (← Text.readNatUpTo? 255 bits))
    | none => ofDigits? cs none
  | _ => none

@[simp] theorem length_digits (size : Nat) (n : Int) : (digits size n).length = size := by
  induction size generalizing n with
  | zero => rfl
  | succ size ih => simp [digits, ih]

end SqlResolution.Geohash
