import SqlResolution.Decimal.Fixed
import SqlResolution.Decimal.Number
import SqlResolution.Instant.Date
import SqlResolution.Instant.Format
import SqlResolution.Text.Blank
import SqlResolution.Value.Text

/-!
# Explicit conversion

`Value.convert?` is the conversion that a cast names: a value of one kind read as a value of a
type. A value that has no counterpart in the type gives none.
-/
namespace SqlResolution

/-- The decimal places kept when numbers become text. -/
structure TextScales where
  double : Nat
  float : Nat
  deriving DecidableEq, Repr

namespace Decimal

open Binary

/-- Digits without the zeros at their end, of which one stays after a point. -/
def dropTrailingZeros (cs : List Char) : List Char :=
  if cs.contains '.' then
    let kept := (cs.reverse.dropWhile (· == '0')).reverse
    if kept.getLast? == some '.' then kept ++ ['0'] else kept
  else cs ++ ".0".toList

/-- A number as text with at most `places` decimal places and at least one. -/
def castText (places : Nat) : Reading → String
  | .nan => "NaN"
  | .infinite negative => if negative then "-Infinity" else "Infinity"
  | .finite negative m q => String.ofList (dropTrailingZeros (fixed places negative m q))

end Decimal

namespace Value

open Binary

/-- The text of a value as a cast or a concatenation writes it. -/
def toText? (scales : TextScales) : Value → Option String
  | str s => some s
  | char c => some c.toString
  | boolean b => some (if b then "true" else "false")
  | double x => some (Decimal.castText scales.double (readDouble x))
  | float x => some (Decimal.castText scales.float (readSingle x))
  | date millis => some (Instant.formatDate millis)
  | timestamp micros => some (Instant.formatTimestamp micros)
  | uuid u => some (uuid u).text
  | v => v.asInt64?.map fun n => n.toInt.repr

/-- The value of a decimal digit. -/
def decimalDigit? (c : Char) : Option Nat :=
  if c.isDigit then some (c.toNat - '0'.toNat) else none

/-- A number cut to an integer that a signed 64-bit word holds. The bounds are those of doubles,
so `2 ^ 63` itself passes and becomes the greatest word. -/
def saturate? (r : Reading) : Option Int64 := do
  let n ← r.truncate?
  if Int64.minValue.toInt ≤ n && n ≤ Int64.maxValue.toInt + 1 then
    some (Int64.ofInt (min n Int64.maxValue.toInt))
  else none

def toIntegral? : Value → Option Int64
  | boolean b => some (if b then 1 else 0)
  | char c => (decimalDigit? c).map Int64.ofNat
  | str s => Text.readInt64? (Text.trim s.toList)
  | float x => saturate? (readSingle x)
  | double x => saturate? (readDouble x)
  | v => v.asInt64?

/-- An integer of a narrower word, where it fits. -/
def toIntegralBetween? (lo hi : Int) (v : Value) : Option Int :=
  (v.toIntegral?.map Int64.toInt).filter fun n => lo ≤ n && n ≤ hi

def toFloating? : Value → Option Float
  | boolean b => some (if b then 1 else 0)
  | char c => (decimalDigit? c).map fun n => doubleOfInt n
  | str s => Decimal.readDouble? (Text.trim s.toList)
  | v => v.asDouble?

def toBoolean? : Value → Option Bool
  | boolean b => some b
  | str s => some (Text.eqIgnoringCase s "true")
  | v => v.asDouble?.map fun x => x != 0

/-- The character with a code point. -/
def charOfCode? (n : Int) : Option Char :=
  if 0 ≤ n && n.toNat.isValidChar then some (Char.ofNat n.toNat) else none

def toChar? : Value → Option Char
  | str s => s.toList.head?
  | char c => some c
  | v => v.asInt64?.bind fun n => charOfCode? n.toInt

def toDate? : Value → Option Int64
  | str s => Instant.parseDate? s
  | timestamp micros => some (Int64.ofInt (micros.toInt.fdiv 1000))
  | v => v.asInt64?

/-- Microseconds, where a 64-bit word holds them. -/
def toTimestamp? : Value → Option Int64
  | str s => Instant.parsePartial? s
  | date millis =>
    let n := millis.toInt * 1000
    if Int64.minValue.toInt ≤ n && n ≤ Int64.maxValue.toInt then some (Int64.ofInt n) else none
  | v => v.asInt64?

def toUuid? : Value → Option (BitVec 128)
  | uuid u => some u
  | str s => Uuid.parse? (String.ofList (Text.trim s.toList))
  | _ => none

/-- The value read as a value of the tag's type. -/
def convert? (scales : TextScales) (target : TypeTag) (v : Value) : Option Value :=
  match target with
  | .boolean => v.toBoolean?.map boolean
  | .byte =>
    (v.toIntegralBetween? Int8.minValue.toInt Int8.maxValue.toInt).map fun n =>
      byte (Int8.ofInt n)
  | .short =>
    (v.toIntegralBetween? Int16.minValue.toInt Int16.maxValue.toInt).map fun n =>
      short (Int16.ofInt n)
  | .int =>
    (v.toIntegralBetween? Int32.minValue.toInt Int32.maxValue.toInt).map fun n =>
      int (Int32.ofInt n)
  | .long => v.toIntegral?.map long
  | .float => v.toFloating?.map fun x => float (Binary.narrow x)
  | .double => v.toFloating?.map double
  | .char => v.toChar?.map char
  | .string | .varchar | .symbol => (v.toText? scales).map str
  | .date => v.toDate?.map date
  | .timestamp => v.toTimestamp?.map timestamp
  | .uuid => v.toUuid?.map uuid
  | _ => none

/-- The result of a cast: null for null and for what cannot be converted. -/
def cast (scales : TextScales) (target : TypeTag) (v : Value) : Value :=
  if v.isNull then null else (v.convert? scales target).getD null

@[simp] theorem cast_null (scales : TextScales) (target : TypeTag) :
    cast scales target null = null := rfl

end Value
end SqlResolution
