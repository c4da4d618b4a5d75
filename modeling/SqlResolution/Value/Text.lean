import SqlResolution.Decimal.Shortest
import SqlResolution.Long256
import SqlResolution.Uuid
import SqlResolution.Value.Basic

/-!
# How values are written

`Value.text` is the plain text of a value, and `Value.same` is equality of values in which a NaN
equals itself and the two zeros are one.
-/
namespace SqlResolution.Value

-- Powers are the core ones, also where another instance is in scope.
attribute [local instance (high)] instPowNat

/-- The four bytes of an address with points between them. -/
def addressText (a : UInt32) : String :=
  ".".intercalate ([24, 16, 8, 0].map fun (shift : Nat) => (a.toNat / 2 ^ shift % 256).repr)

mutual

def text : Value → String
  | null => "null"
  | boolean b => if b then "true" else "false"
  | byte n => n.toInt.repr
  | short n => n.toInt.repr
  | char c => c.toString
  | int n => n.toInt.repr
  | long n | date n | timestamp n => n.toInt.repr
  | float x => Decimal.text Binary.single (Binary.readSingle x)
  | double x => Decimal.text Binary.double (Binary.readDouble x)
  | str s => s
  | binary bytes => "[binary len=" ++ bytes.size.repr ++ "]"
  | uuid u => Uuid.wordText u
  | ipv4 a => addressText a
  | long128 n => n.toInt.repr
  | long256 n => Long256.text n
  | interval lo hi => "('" ++ lo.toInt.repr ++ "', '" ++ hi.toInt.repr ++ "')"
  | geohash bits => "#" ++ String.ofList (Text.hexLeast bits.toUInt64.toNat)
  | array _ _ values => "[" ++ ",".intercalate (texts values) ++ "]"

/-- The texts of an array's values, in order. -/
def texts : List Value → List String
  | [] => []
  | v :: vs => v.text :: texts vs

end

/-- Equality of doubles in which a NaN equals itself. -/
def sameDouble (x y : Float) : Bool := x == y || (x.isNaN && y.isNaN)

/-- Equality of singles in which a NaN equals itself. -/
def sameSingle (x y : Float32) : Bool := x == y || (x.isNaN && y.isNaN)

mutual

def same : Value → Value → Bool
  | null, null => true
  | boolean a, boolean b => a == b
  | byte a, byte b => a == b
  | short a, short b => a == b
  | char a, char b => a == b
  | int a, int b => a == b
  | long a, long b => a == b
  | date a, date b => a == b
  | timestamp a, timestamp b => a == b
  | float a, float b => sameSingle a b
  | double a, double b => sameDouble a b
  | str a, str b => a == b
  | binary a, binary b => a == b
  | uuid a, uuid b => a == b
  | ipv4 a, ipv4 b => a == b
  | long128 a, long128 b => a == b
  | long256 a, long256 b => a == b
  | interval a b, interval c d => a == c && b == d
  | geohash a, geohash b => a == b
  | array e shape as, array f shape' bs => e == f && shape == shape' && sameAll as bs
  | _, _ => false

def sameAll : List Value → List Value → Bool
  | [], [] => true
  | a :: as, b :: bs => a.same b && sameAll as bs
  | _, _ => false

end

end SqlResolution.Value
